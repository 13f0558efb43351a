import K3smApis.LockCooldown
import K3smApis.ModFile
import K3smApis.TextLines

/-!
# The replace discipline

`cmd_replace` of the helper in `hack/verify-deps.sh`: a scan over the lines of go.mod with
the kind of the last line, against the directives that the grammar finds.
-/
namespace K3smApis.Deps
open ModFile

/-- The kind of the last line that is not blank. -/
inductive Prev where
  | none
  | comment
  | replace
  | opened
  | openedCommented
  | other
  deriving DecidableEq

inductive ReplaceError where
  /-- `replace is not directly after a // comment explaining it` -/
  | uncommented (n : ℕ) (line : Text)
  /-- `malformed replace` -/
  | malformed (n : ℕ) (line : Text)
  /-- `filesystem replace may only name …` -/
  | filesystem (n : ℕ) (line : Text)
  deriving DecidableEq

/-- The variables of the loop. -/
structure ReplaceScan where
  inBlock : Bool
  prev : Prev
  blankSince : Bool
  bad : List ReplaceError

def ReplaceScan.start : ReplaceScan := ⟨false, .none, false, []⟩

/-- `entry.split("//", 1)[0]` -/
def beforeComment (t : Text) : Text := ((cut slashes t).map Prod.fst).getD t

/-- `^replace\s*\($` -/
def opensBlock (s : Text) : Bool :=
  s.hasPrefix replaceKey && (s.drop replaceKey.length).dropWhile isSpace = ['(']

/-- `^replace\s` -/
def startsReplace (s : Text) : Bool :=
  s.hasPrefix replaceKey && (s.drop replaceKey.length).head?.any isSpace

/-- `target.startswith((".", "/"))` -/
def startsPath (t : Text) : Bool := t.head? = some '.' || t.head? = some '/'

/-- What an entry's text behind the arrow is refused for. -/
def checkTarget (allow : List Text) (n : ℕ) (s entry : Text) : List ReplaceError :=
  match cut arrow entry with
  | none => [.malformed n s]
  | some (_, rhs) =>
    match words rhs with
    | [target] => if startsPath target ∧ target ∉ allow then [.filesystem n s] else []
    | _ => []

/-- Whether the line right above is a comment that explains an entry. -/
def ReplaceScan.explained (st : ReplaceScan) : Bool :=
  (st.prev = .comment || st.prev = .openedCommented) && !st.blankSince

/-- The end of a round that has an entry. -/
def ReplaceScan.entry (allow : List Text) (n : ℕ) (st : ReplaceScan) (s entry : Text) :
    ReplaceScan :=
  { st with
    prev := .replace
    blankSince := false
    bad := st.bad ++ (if st.explained then [] else [.uncommented n s]) ++
      checkTarget allow n s (strip (beforeComment entry)) }

/-- One round, for the stripped line `s`. -/
def ReplaceScan.read (allow : List Text) (n : ℕ) (st : ReplaceScan) (s : Text) : ReplaceScan :=
  if s = [] then { st with blankSince := true }
  else if st.inBlock then
    if s = [')'] then { st with inBlock := false, prev := .other, blankSince := false }
    else if s.hasPrefix slashes then { st with prev := .comment, blankSince := false }
    else st.entry allow n s s
  else if opensBlock s then
    { st with
      inBlock := true
      prev := if st.prev = .comment ∧ st.blankSince = false then .openedCommented else .opened
      blankSince := false }
  else if startsReplace s then st.entry allow n s (strip (s.drop replaceKey.length))
  else if s.hasPrefix slashes then { st with prev := .comment, blankSince := false }
  else { st with prev := .other, blankSince := false }

/-- The loop from line `n` on. -/
def scanReplace (allow : List Text) : ℕ → ReplaceScan → List Text → ReplaceScan
  | _, st, [] => st
  | n, st, raw :: ls => scanReplace allow (n + 1) (st.read allow n (strip raw)) ls

/-- `cmd_replace`: its exit code. -/
def cmdReplace (allow gomod : Text) : ℕ :=
  if (scanReplace (words allow) 1 .start (Lines.fileLines gomod)).bad = [] then 0 else 1

/-- `LOCAL_REPLACE_ALLOW` -/
def localReplaceAllow : Text := "../apis ../runtimed ../darwin-net ../k3sm".toList

/-- The keyword and a punctuation mark without a blank between them. -/
def Glued (raw : Text) : Prop := ∃ c ∈ punctuation, replaceKey ++ [c] <+: strip raw

/-- A block the scan does not notice: a comment stands behind its glued parenthesis. -/
def HiddenBlock (o : Line) : Prop := o.comment = true ∧ Glued o.raw

/-- A directive whose line is no entry for the scan. -/
def Unseen (d : Directive) : Prop :=
  (d.opener = none ∧ Glued d.line.raw) ∨ ∃ o, d.opener = some o ∧ HiddenBlock o

/-- The arguments in front of the arrow. -/
def beforeArrow (args : List Token) : List Token :=
  if args[1]? = some (.word arrow) then args.take 1 else args.take 2

/-- A directive with a string among its arguments, or an arrow inside one in front of the
arrow: what the scan takes for the target is another text. -/
def Misread (d : Directive) : Prop :=
  (∃ tok ∈ d.args, tok.isQuoted = true) ∨ ∃ tok ∈ beforeArrow d.args, arrow <:+: tok.text

/-- A file system path. -/
def IsPath (t : Text) : Prop := "./".toList <+: t ∨ "../".toList <+: t ∨ "/".toList <+: t

variable {g : Rules}

theorem isSpace_of_isIdent {c : Char} (h : g.isIdent c = true) : isSpace c = false := by
  simp only [Rules.isIdent, Bool.and_eq_true, Bool.not_eq_true'] at h
  obtain ⟨⟨-, hspace⟩, hprint⟩ := h
  have hcontrol : ¬(0x1c ≤ c.toNat ∧ c.toNat ≤ 0x1f) := by
    rintro ⟨hlo, hhi⟩
    rw [if_pos (by omega)] at hprint
    simp only [Bool.and_eq_true, decide_eq_true_eq] at hprint
    omega
  simpa [isSpace, hspace] using hcontrol

theorem isSpace_of_mem_punctuation {c : Char} (h : c ∈ punctuation) : isSpace c = false := by
  have hall : punctuation.all (fun c => !isSpace c) = true := by decide
  simpa using List.all_eq_true.mp hall c h

/-- A token starts and ends with a rune that is no white space. -/
theorem starts_ends {tok : Token} {t : Text} (h : Starts g tok t) :
    (∃ c r, tok.text = c :: r ∧ isSpace c = false) ∧
      ∃ d, tok.text.getLast? = some d ∧ isSpace d = false := by
  cases tok with
  | punct c =>
    have hc := isSpace_of_mem_punctuation h
    exact ⟨⟨c, [], rfl, hc⟩, c, rfl, hc⟩
  | word w =>
    obtain ⟨c, r, rfl, hc, -⟩ := IsWord.head h
    refine ⟨⟨c, r, rfl, isSpace_of_isIdent hc⟩, (c :: r).getLast (by simp), ?_, ?_⟩
    · exact List.getLast?_eq_some_getLast _
    · exact isSpace_of_isIdent (h.ident _ (List.getLast_mem _))
  | quoted q =>
    obtain ⟨quote, body, hquote, rfl, hclose⟩ := h
    have hsolid : isSpace quote = false := by
      rcases hquote with rfl | rfl <;> decide
    have hne : body ≠ [] := by
      rintro rfl
      simp [closes] at hclose
    refine ⟨⟨quote, body, rfl, hsolid⟩, quote, ?_, hsolid⟩
    rw [Token.text, List.getLast?_cons_of_ne_nil hne, closes_getLast hclose]

theorem isSpace_blank {c : Char} (h : c = ' ' ∨ c = '\t' ∨ c = '\r') : isSpace c = true := by
  rcases h with rfl | rfl | rfl <;> decide

theorem rdropWhile_append {a b : Text} {d : Char} (ha : a.getLast? = some d)
    (hd : isSpace d = false) : (a ++ b).rdropWhile isSpace = a ++ b.rdropWhile isSpace := by
  obtain ⟨r, rfl⟩ := List.getLast?_eq_some_iff.mp ha
  simp [rdropWhile_append_cons hd]

theorem slashes_prefix_rdropWhile {t : Text} (h : slashes <+: t) :
    slashes <+: t.rdropWhile isSpace := by
  obtain ⟨r, rfl⟩ := h
  rw [rdropWhile_append (d := '/') rfl (by decide)]
  exact List.prefix_append _ _

theorem lexes_dropWhile {x : Text} {ts : List Token} {cm : Bool} (h : Lexes g x ts cm) :
    Lexes g (x.dropWhile isSpace) ts cm := by
  induction h with
  | done => exact .done
  | comment t =>
    rw [slashes, List.cons_append, List.dropWhile_cons_of_neg (by decide)]
    exact .comment t
  | blank hc _ ih => rwa [List.dropWhile_cons_of_pos (isSpace_blank hc)]
  | token hstart h _ =>
    obtain ⟨⟨c, r, hcr, hc⟩, -⟩ := starts_ends hstart
    rw [hcr, List.cons_append, List.dropWhile_cons_of_neg (by simp [hc]), ← List.cons_append, ← hcr]
    exact .token hstart h

theorem lexes_rdropWhile {x : Text} {ts : List Token} {cm : Bool} (h : Lexes g x ts cm) :
    Lexes g (x.rdropWhile isSpace) ts cm := by
  induction h with
  | done => exact .done
  | comment t =>
    rw [rdropWhile_append (d := '/') rfl (by decide)]
    exact .comment _
  | @blank c t ts cm hc _ ih =>
    by_cases hnil : t.rdropWhile isSpace = []
    · have hall : (c :: t).rdropWhile isSpace = [] := by
        rw [List.rdropWhile_eq_nil_iff] at hnil ⊢
        simpa [isSpace_blank hc] using hnil
      rw [hall]
      rwa [hnil] at ih
    · have hkeep : (c :: t).rdropWhile isSpace = c :: t.rdropWhile isSpace := by
        have hback : t.reverse.dropWhile isSpace ≠ [] := by simpa [List.rdropWhile] using hnil
        rw [List.rdropWhile, List.reverse_cons, dropWhile_append_of_ne_nil hback,
          List.reverse_append]
        rfl
      rw [hkeep]
      exact .blank hc ih
  | token hstart h ih =>
    obtain ⟨-, d, hlast, hd⟩ := starts_ends hstart
    rw [rdropWhile_append hlast hd]
    exact .token (hstart.of_prefix (List.rdropWhile_prefix _ _)
      (fun hs => .inr (slashes_prefix_rdropWhile hs))) ih

/-- A line keeps its tokens when it is stripped. -/
theorem lexes_strip {x : Text} {ts : List Token} {cm : Bool} (h : Lexes g x ts cm) :
    Lexes g (strip x) ts cm := lexes_rdropWhile (lexes_dropWhile h)

theorem beforeComment_cons {c : Char} {t : Text} (h : ¬slashes <+: c :: t) :
    beforeComment (c :: t) = c :: beforeComment t := by
  rw [beforeComment, beforeComment, cut, if_neg h]
  cases cut slashes t <;> rfl

theorem beforeComment_slashes (t : Text) : beforeComment (slashes ++ t) = [] := by
  simp [beforeComment, slashes, cut]

theorem beforeComment_append {w t : Text}
    (h : ∀ a b, w = a ++ b → b ≠ [] → ¬slashes <+: b ++ t) :
    beforeComment (w ++ t) = w ++ beforeComment t := by
  induction w with
  | nil => rfl
  | cons c w ih =>
    have hfirst : ¬slashes <+: c :: (w ++ t) := h [] (c :: w) rfl (by simp)
    rw [List.cons_append, beforeComment_cons hfirst, List.cons_append,
      ih (fun a b hab hb => h (c :: a) b (by rw [hab, List.cons_append]) hb)]

theorem beforeComment_isPrefix (t : Text) : beforeComment t <+: t := by
  cases hcut : cut slashes t with
  | none => simp [beforeComment, hcut]
  | some p =>
    have ht := (cut_some (by decide) (show cut slashes t = some (p.1, p.2) from hcut)).1
    rw [beforeComment, hcut]
    exact ⟨slashes ++ p.2, by rw [Option.map_some, Option.getD_some, ← List.append_assoc, ← ht]⟩

theorem not_comment_cons {c : Char} (h : c ≠ '/') (t : Text) : ¬slashes <+: c :: t := by
  rintro ⟨r, hr⟩
  exact h (List.cons.inj hr).1.symm

/-- No comment starts in a token that has no quotes. -/
theorem Starts.noComment {tok : Token} {t : Text} (h : Starts g tok t)
    (hbare : tok.isQuoted = false) (a b : Text) (hab : tok.text = a ++ b) (hb : b ≠ []) :
    ¬slashes <+: b ++ t := by
  cases tok with
  | punct c =>
    have hslash : c ≠ '/' := by
      rintro rfl
      exact absurd (show '/' ∈ punctuation from h) (by decide)
    have hb' : b = [c] := by
      cases a with
      | nil => exact hab.symm
      | cons d a => simp [Token.text, hb] at hab
    rw [hb']
    exact not_comment_cons hslash t
  | word w => exact (IsWord.whole h a b hab hb).1
  | quoted q => cases hbare

/-- A line without strings keeps its tokens in front of its comment. -/
theorem lexes_beforeComment {x : Text} {ts : List Token} {cm : Bool} (h : Lexes g x ts cm)
    (hbare : ∀ tok ∈ ts, tok.isQuoted = false) : Lexes g (beforeComment x) ts false := by
  induction h with
  | done => exact .done
  | comment t =>
    rw [beforeComment_slashes]
    exact .done
  | @blank c t ts cm hc _ ih =>
    have hslash : c ≠ '/' := by rcases hc with rfl | rfl | rfl <;> decide
    rw [beforeComment_cons (not_comment_cons hslash t)]
    exact .blank hc (ih hbare)
  | token hstart _ ih =>
    rw [beforeComment_append (Starts.noComment hstart (hbare _ (by simp)))]
    refine .token (hstart.of_prefix (beforeComment_isPrefix _) ?_)
      (ih (fun tok htok => hbare tok (by simp [htok])))
    rintro ⟨r, rfl⟩
    exact .inl (beforeComment_slashes r)

theorem infix_append_cases {c d : Char} {x y : Text} (h : [c, d] <:+: x ++ y) :
    [c, d] <:+: x ∨ [c, d] <:+: y ∨ x.getLast? = some c ∧ y.head? = some d := by
  obtain ⟨a, b, hab⟩ := h
  rw [List.append_assoc] at hab
  rcases List.append_eq_append_iff.mp hab with ⟨r, rfl, hr⟩ | ⟨r, rfl, rfl⟩
  · rcases r with _ | ⟨e, _ | ⟨f, r⟩⟩
    · exact .inr (.inl ⟨[], b, by simpa using hr⟩)
    · obtain ⟨rfl, rfl⟩ : c = e ∧ d :: b = y := by simpa using hr
      exact .inr (.inr ⟨by simp, rfl⟩)
    · obtain ⟨rfl, rfl, -⟩ : c = e ∧ d = f ∧ b = r ++ y := by simpa using hr
      exact .inl ⟨a, r, List.append_assoc _ _ _⟩
  · exact .inr (.inl ⟨r, b, List.append_assoc _ _ _⟩)

/-- No arrow goes on over the end of a token that has no quotes. -/
theorem Starts.no_straddle {tok : Token} {t : Text} (h : Starts g tok t)
    (hbare : tok.isQuoted = false) :
    ¬(tok.text.getLast? = some '=' ∧ t.head? = some '>') := by
  rintro ⟨hlast, hhead⟩
  cases tok with
  | punct c =>
    obtain rfl : c = '=' := by simpa [Token.text] using hlast
    exact absurd (show '=' ∈ punctuation from h) (by decide)
  | word w =>
    rcases IsWord.stop h with hstop | ⟨r, rfl⟩
    · have hident : g.isIdent '>' = true := rfl
      rw [hstop '>' hhead] at hident
      cases hident
    · simp [slashes] at hhead
  | quoted q => cases hbare

/-- An arrow in a line without strings and comment is inside one of its tokens. -/
theorem lexes_arrow {x : Text} {ts : List Token} {cm : Bool} (h : Lexes g x ts cm)
    (hcm : cm = false) (hbare : ∀ tok ∈ ts, tok.isQuoted = false) (harrow : arrow <:+: x) :
    ∃ tok ∈ ts, arrow <:+: tok.text := by
  induction h with
  | done => exact absurd (List.infix_nil.mp harrow) (by decide)
  | comment t => cases hcm
  | @blank c t ts cm hc _ ih =>
    rcases infix_append_cases (x := [c]) harrow with hin | hin | ⟨hlast, -⟩
    · exact absurd hin.length_le (by simp)
    · exact ih hcm hbare hin
    · obtain rfl : c = '=' := by simpa using hlast
      exact absurd hc (by decide)
  | @token tok t ts cm hstart _ ih =>
    rcases infix_append_cases harrow with hin | hin | hstraddle
    · exact ⟨tok, by simp, hin⟩
    · obtain ⟨tok', htok, hin⟩ := ih hcm (fun u hu => hbare u (by simp [hu])) hin
      exact ⟨tok', by simp [htok], hin⟩
    · exact absurd hstraddle (Starts.no_straddle hstart (hbare tok (by simp)))

theorem cut_arrow {a b : Text} (h : ¬arrow <:+: a) :
    cut arrow (a ++ (arrow ++ b)) = some (a, b) := by
  induction a with
  | nil => simp [arrow, cut]
  | cons c a ih =>
    have hfirst : ¬arrow <+: c :: (a ++ (arrow ++ b)) := by
      rintro ⟨r, hr⟩
      cases a with
      | nil => simp [arrow] at hr
      | cons d a =>
        obtain ⟨rfl, rfl, -⟩ : '=' = c ∧ '>' = d ∧ r = a ++ (arrow ++ b) := by
          simpa [arrow] using hr
        exact h ⟨[], a, rfl⟩
    rw [List.cons_append, cut, if_neg hfirst,
      ih (fun hin => h (hin.trans (List.suffix_cons c a).isInfix))]
    rfl

theorem cut_eq_none {sep t : Text} (hsep : sep ≠ []) (h : ¬sep <:+: t) : cut sep t = none := by
  cases hcut : cut sep t with
  | none => rfl
  | some p =>
    have ht := (cut_some hsep (show cut sep t = some (p.1, p.2) from hcut)).1
    exact absurd ⟨p.1, p.2, ht.symm⟩ h

/-- The text around an arrow that is a token of its own. -/
theorem lexes_split {x : Text} {ts pre post : List Token} {cm : Bool} (h : Lexes g x ts cm)
    (hcm : cm = false) (hts : ts = pre ++ .word arrow :: post)
    (hbare : ∀ tok ∈ pre, tok.isQuoted = false) (hnone : ∀ tok ∈ pre, ¬arrow <:+: tok.text) :
    ∃ a b, x = a ++ (arrow ++ b) ∧ ¬arrow <:+: a ∧ Lexes g b post false := by
  induction h generalizing pre with
  | done => simp at hts
  | comment t => simp at hts
  | @blank c t ts cm hc _ ih =>
    obtain ⟨a, b, rfl, ha, hb⟩ := ih hcm hts hbare hnone
    refine ⟨c :: a, b, rfl, ?_, hb⟩
    intro hin
    rcases infix_append_cases (x := [c]) hin with hin | hin | ⟨hlast, -⟩
    · exact absurd hin.length_le (by simp)
    · exact ha hin
    · obtain rfl : c = '=' := by simpa using hlast
      exact absurd hc (by decide)
  | @token tok t ts cm hstart h ih =>
    cases pre with
    | nil =>
      obtain ⟨rfl, rfl⟩ : tok = .word arrow ∧ ts = post := by simpa using hts
      exact ⟨[], t, rfl, by decide, hcm ▸ h⟩
    | cons p pre =>
      obtain ⟨rfl, htail⟩ : tok = p ∧ ts = pre ++ .word arrow :: post := by simpa using hts
      obtain ⟨a, b, rfl, ha, hb⟩ := ih hcm htail (fun u hu => hbare u (by simp [hu]))
        (fun u hu => hnone u (by simp [hu]))
      refine ⟨tok.text ++ a, b, by rw [List.append_assoc], ?_, hb⟩
      intro hin
      rcases infix_append_cases hin with hin | hin | ⟨hlast, hhead⟩
      · exact hnone tok (by simp) hin
      · exact ha hin
      · refine Starts.no_straddle hstart (hbare tok (by simp)) ⟨hlast, ?_⟩
        cases a with
        | nil => cases hhead
        | cons e a => exact hhead

theorem words_cons {c : Char} (h : isSpace c = true) (t : Text) : words (c :: t) = words t := by
  rw [words, List.splitOnP_cons_eq_if_modifyHead, if_pos h]
  simp [words]

theorem words_of_forall {t : Text} (h : ∀ c ∈ t, isSpace c = true) : words t = [] := by
  induction t with
  | nil => simp [words]
  | cons c t ih =>
    rw [words_cons (h c (by simp)), ih (fun d hd => h d (by simp [hd]))]

theorem words_append {w t : Text} (hne : w ≠ []) (hw : ∀ c ∈ w, isSpace c = false)
    (ht : ∀ c ∈ t, isSpace c = true) : words (w ++ t) = [w] := by
  cases t with
  | nil => simp [words, List.splitOnP_eq_singleton hw, hne]
  | cons c t =>
    have hrest := words_of_forall (fun d hd => ht d (List.mem_cons_of_mem c hd))
    rw [words] at hrest ⊢
    rw [List.splitOnP_append_cons_of_forall_mem hw c (ht c (by simp)),
      List.filter_cons_of_pos (by simpa using hne), hrest]

theorem lexes_nil {x : Text} {ts : List Token} {cm : Bool} (h : Lexes g x ts cm) (hts : ts = [])
    (hcm : cm = false) : ∀ c ∈ x, isSpace c = true := by
  induction h with
  | done => simp
  | comment t => cases hcm
  | blank hc _ ih => simpa [isSpace_blank hc] using ih hts hcm
  | token => cases hts

/-- A line with one bare token is that word. -/
theorem words_of_lexes {x w : Text} {ts : List Token} {cm : Bool} (h : Lexes g x ts cm)
    (hts : ts = [.word w]) (hcm : cm = false) : words x = [w] := by
  induction h with
  | done => cases hts
  | comment t => cases hts
  | blank hc _ ih => rw [words_cons (isSpace_blank hc), ih hts hcm]
  | @token tok t ts cm hstart h _ =>
    obtain ⟨rfl, rfl⟩ : tok = .word w ∧ ts = [] := by simpa using hts
    exact words_append (IsWord.ne_nil hstart)
      (fun c hc => isSpace_of_isIdent (IsWord.ident hstart c hc)) (lexes_nil h rfl hcm)

/-- The text the scan looks at has the entry's tokens, as long as none is a string. -/
theorem lexes_entry {x : Text} {ts : List Token} {cm : Bool} (h : Lexes g x ts cm)
    (hbare : ∀ tok ∈ ts, tok.isQuoted = false) :
    Lexes g (strip (beforeComment x)) ts false := lexes_strip (lexes_beforeComment h hbare)

theorem checkTarget_malformed {x : Text} {ts : List Token} {cm : Bool} (h : Lexes g x ts cm)
    (hbare : ∀ tok ∈ ts, tok.isQuoted = false) (hnone : ∀ tok ∈ ts, ¬arrow <:+: tok.text)
    (allow : List Text) (n : ℕ) (s : Text) :
    checkTarget allow n s (strip (beforeComment x)) ≠ [] := by
  have hcut : cut arrow (strip (beforeComment x)) = none := by
    apply cut_eq_none (by decide)
    intro hin
    obtain ⟨tok, htok, harrow⟩ := lexes_arrow (lexes_entry h hbare) rfl hbare hin
    exact hnone tok htok harrow
  simp [checkTarget, hcut]

/-- A plain directory behind the arrow is looked up. -/
theorem checkTarget_directory {x w : Text} {pre : List Token} {cm : Bool}
    (h : Lexes g x (pre ++ [.word arrow, .word w]) cm)
    (hbare : ∀ tok ∈ pre, tok.isQuoted = false) (hnone : ∀ tok ∈ pre, ¬arrow <:+: tok.text)
    {allow : List Text} {n : ℕ} {s : Text}
    (hok : checkTarget allow n s (strip (beforeComment x)) = []) (hpath : startsPath w = true) :
    w ∈ allow := by
  have hall : ∀ tok ∈ pre ++ [.word arrow, .word w], tok.isQuoted = false := by
    intro tok htok
    rcases List.mem_append.mp htok with hpre | hpost
    · exact hbare tok hpre
    · simp only [List.mem_cons, List.not_mem_nil, or_false] at hpost
      rcases hpost with rfl | rfl <;> rfl
  obtain ⟨a, b, hx, ha, hb⟩ := lexes_split (lexes_entry h hall) rfl rfl hbare hnone
  have hcut : cut arrow (strip (beforeComment x)) = some (a, b) := by rw [hx, cut_arrow ha]
  simp only [checkTarget, hcut, words_of_lexes hb rfl rfl] at hok
  by_contra hnot
  rw [if_pos ⟨hpath, hnot⟩] at hok
  cases hok

/-- A stripped line is empty, a comment, or starts with its first token. -/
theorem lexes_cases {s : Text} {ts : List Token} {cm : Bool} (h : Lexes g s ts cm)
    (hs : Stripped s) :
    (s = [] ∧ ts = [] ∧ cm = false) ∨ (slashes <+: s ∧ ts = [] ∧ cm = true) ∨
      ∃ tok t ts', s = tok.text ++ t ∧ ts = tok :: ts' ∧ Starts g tok t ∧ Lexes g t ts' cm := by
  cases h with
  | done => exact .inl ⟨rfl, rfl, rfl⟩
  | comment t => exact .inr (.inl ⟨List.prefix_append _ _, rfl, rfl⟩)
  | @blank c t _ _ hc h =>
    have hhead := hs.head c (by simp)
    rw [isSpace_blank hc] at hhead
    cases hhead
  | token hstart h => exact .inr (.inr ⟨_, _, _, rfl, rfl, hstart, h⟩)

theorem Starts.not_comment {tok : Token} {t : Text} (h : Starts g tok t) :
    ¬slashes <+: tok.text ++ t := by
  cases tok with
  | quoted q =>
    obtain ⟨quote, body, hquote, rfl, -⟩ := h
    exact not_comment_cons (by rcases hquote with rfl | rfl <;> decide) _
  | punct c => exact Starts.noComment h rfl [] [c] rfl (by simp)
  | word w => exact Starts.noComment h rfl [] w rfl (IsWord.ne_nil h)

/-- What the first rune of a line tells of its first token. -/
theorem Starts.punct_of_head {tok : Token} {t r : Text} {c : Char} (h : Starts g tok t)
    (hc : c ∈ punctuation) (htext : tok.text ++ t = c :: r) : tok = .punct c ∧ t = r := by
  cases tok with
  | punct d =>
    obtain ⟨rfl, rfl⟩ : d = c ∧ t = r := by simpa [Token.text] using htext
    exact ⟨rfl, rfl⟩
  | word w =>
    obtain ⟨d, w', rfl, hd, -⟩ := IsWord.head h
    obtain ⟨rfl, -⟩ : d = c ∧ w' ++ t = r := by simpa [Token.text] using htext
    simp [Rules.isIdent, hc] at hd
  | quoted q =>
    obtain ⟨quote, body, hquote, rfl, -⟩ := h
    obtain ⟨rfl, -⟩ : quote = c ∧ body ++ t = r := by simpa [Token.text] using htext
    rcases hquote with rfl | rfl <;> exact absurd hc (by decide)

/-- A bare token ends where its runes do. -/
theorem IsWord.unique {w t v u : Text} (h : IsWord g w t) (hv : ∀ c ∈ v, g.isIdent c = true)
    (hslash : '/' ∉ v) (hu : ∀ c ∈ u.head?, g.isIdent c = false) (htext : w ++ t = v ++ u) :
    w = v ∧ t = u := by
  rcases List.append_eq_append_iff.mp htext with ⟨r, rfl, rfl⟩ | ⟨r, rfl, rfl⟩
  · cases r with
    | nil => simp
    | cons c r =>
      -- the token could go on with the rest of `v`
      exfalso
      rcases h.stop with hstop | ⟨x, hx⟩
      · have hc := hstop c (by simp)
        rw [hv c (by simp)] at hc
        cases hc
      · obtain ⟨rfl, -⟩ : '/' = c ∧ '/' :: x = r ++ u := by simpa [slashes] using hx
        simp at hslash
  · cases r with
    | nil => simp
    | cons c r =>
      exfalso
      have hc := hu c (by simp)
      rw [h.ident c (by simp)] at hc
      cases hc

theorem replaceKey_ident : ∀ c ∈ replaceKey, g.isIdent c = true := by
  have hkey : replaceKey = ['r', 'e', 'p', 'l', 'a', 'c', 'e'] := rfl
  rw [hkey]
  intro c hc
  simp only [List.mem_cons, List.not_mem_nil, or_false] at hc
  rcases hc with rfl | rfl | rfl | rfl | rfl | rfl | rfl <;> rfl

/-- Behind white space a line has the same tokens. -/
theorem opens_tail {x : Text} {ts : List Token} {cm : Bool} (h : Lexes g x ts cm)
    (hx : x.dropWhile isSpace = ['(']) : ts = [.punct '('] ∧ cm = false := by
  have hlex := lexes_dropWhile h
  have hparen : Stripped ['('] := ⟨by simp; decide, by simp; decide⟩
  rw [hx] at hlex
  rcases lexes_cases hlex hparen with
    ⟨hnil, -⟩ | ⟨hslash, -⟩ | ⟨tok, t, ts', htext, rfl, hstart, ht⟩
  · cases hnil
  · exact absurd hslash (by decide)
  · obtain ⟨rfl, rfl⟩ := Starts.punct_of_head hstart (by decide) htext.symm
    generalize hnil : ([] : Text) = y at ht
    cases ht with
    | done => exact ⟨rfl, rfl⟩
    | comment t => simp [slashes] at hnil
    | blank => cases hnil
    | token hstart _ =>
      obtain ⟨⟨c, r, hcr, -⟩, -⟩ := starts_ends hstart
      rw [hcr] at hnil
      cases hnil

theorem Starts.word_of_key {tok : Token} {t u : Text} (h : Starts g tok t)
    (htext : tok.text ++ t = replaceKey ++ u) : ∃ w, tok = .word w := by
  have hkey : replaceKey = 'r' :: "eplace".toList := rfl
  cases tok with
  | punct c =>
    obtain ⟨rfl, -⟩ : c = 'r' ∧ t = "eplace".toList ++ u := List.cons.inj htext
    exact absurd (show 'r' ∈ punctuation from h) (by decide)
  | word w => exact ⟨w, rfl⟩
  | quoted q =>
    obtain ⟨quote, body, hquote, rfl, -⟩ := h
    obtain ⟨rfl, -⟩ : quote = 'r' ∧ body ++ t = "eplace".toList ++ u := List.cons.inj htext
    exact absurd hquote (by decide)

/-- The scan opens a block only where the grammar does. -/
theorem tokens_of_opensBlock {s : Text} {ts : List Token} {cm : Bool} (h : Lexes g s ts cm)
    (hs : Stripped s) (hopen : opensBlock s = true) :
    ts = [.word replaceKey, .punct '('] ∧ cm = false := by
  simp only [opensBlock, Bool.and_eq_true, Text.hasPrefix_iff, decide_eq_true_eq] at hopen
  obtain ⟨⟨u, rfl⟩, hparen⟩ := hopen
  rw [List.drop_left] at hparen
  have hu : ∀ c ∈ u.head?, g.isIdent c = false := by
    intro c hc
    by_contra hident
    rw [Bool.not_eq_false] at hident
    obtain ⟨r, rfl⟩ := List.head?_eq_some_iff.mp hc
    rw [List.dropWhile_cons_of_neg (by simp [isSpace_of_isIdent hident])] at hparen
    obtain ⟨rfl, -⟩ := List.cons.inj hparen
    cases hident
  rcases lexes_cases h hs with ⟨hnil, -⟩ | ⟨hslash, -⟩ | ⟨tok, t, ts', htext, rfl, hstart, ht⟩
  · cases hnil
  · exact absurd hslash (not_comment_cons (by decide) _)
  · obtain ⟨w, rfl⟩ := Starts.word_of_key hstart htext.symm
    obtain ⟨rfl, rfl⟩ := IsWord.unique hstart replaceKey_ident (by decide) hu htext.symm
    obtain ⟨rfl, rfl⟩ := opens_tail ht hparen
    exact ⟨rfl, rfl⟩

/-- A keyword in front of another token is followed by white space, or glued to it. -/
theorem startsReplace_or_glued {raw t : Text} {tok : Token} {ts : List Token} {cm : Bool}
    (hraw : strip raw = replaceKey ++ t) (hkey : IsWord g replaceKey t)
    (h : Lexes g t (tok :: ts) cm) : startsReplace (strip raw) = true ∨ Glued raw := by
  cases h with
  | @blank c t _ _ hc h =>
    left
    rw [hraw, startsReplace, List.drop_left, Text.hasPrefix_iff.mpr (List.prefix_append _ _)]
    simp [isSpace_blank hc]
  | @token _ t _ _ hstart h =>
    cases tok with
    | punct c =>
      right
      exact ⟨c, hstart, by rw [hraw]; exact ⟨t, by rw [List.append_assoc]; rfl⟩⟩
    | word w =>
      exfalso
      rcases hkey.stop with hstop | hslash
      · obtain ⟨c, r, rfl, hc, -⟩ := IsWord.head hstart
        rw [hstop c rfl] at hc
        cases hc
      · exact Starts.not_comment hstart hslash
    | quoted q =>
      exfalso
      rcases hkey.stop with hstop | hslash
      · obtain ⟨quote, body, hquote, rfl, -⟩ := hstart
        have hident : g.isIdent quote = true := by
          rcases hquote with rfl | rfl <;> rfl
        rw [hstop quote rfl] at hident
        cases hident
      · exact Starts.not_comment hstart hslash

/-- A line with one punctuation mark is the mark and white space around it. -/
theorem lexes_punct {x : Text} {c : Char} {ts : List Token} {cm : Bool} (h : Lexes g x ts cm)
    (hts : ts = [.punct c]) (hcm : cm = false) :
    ∃ b y, x = b ++ c :: y ∧ (∀ d ∈ b, isSpace d = true) ∧ ∀ d ∈ y, isSpace d = true := by
  induction h with
  | done => cases hts
  | comment t => cases hts
  | @blank d t ts cm hd _ ih =>
    obtain ⟨b, y, rfl, hb, hy⟩ := ih hts hcm
    exact ⟨d :: b, y, rfl, by simpa [isSpace_blank hd] using hb, hy⟩
  | @token tok t ts cm hstart h _ =>
    obtain ⟨rfl, rfl⟩ : tok = .punct c ∧ ts = [] := by simpa using hts
    exact ⟨[], t, rfl, by simp, lexes_nil h rfl hcm⟩

theorem Stripped.tail_eq_nil {a y : Text} (hs : Stripped (a ++ y))
    (hy : ∀ d ∈ y, isSpace d = true) : y = [] := by
  by_contra hne
  have hlast := hs.last (y.getLast hne)
    (by rw [List.getLast?_append_of_ne_nil _ hne]; exact List.getLast?_eq_some_getLast hne)
  rw [hy _ (List.getLast_mem hne)] at hlast
  cases hlast

/-- A line the grammar opens a block with, and no comment behind. -/
theorem opensBlock_of_tokens {s t : Text} (hs : Stripped s) (htext : s = replaceKey ++ t)
    (h : Lexes g t [.punct '('] false) : opensBlock s = true := by
  obtain ⟨b, y, rfl, hb, hy⟩ := lexes_punct h rfl rfl
  subst htext
  have hnil : y = [] := by
    apply Stripped.tail_eq_nil (a := replaceKey ++ (b ++ ['('])) _ hy
    simpa using hs
  subst hnil
  rw [opensBlock, List.drop_left, Text.hasPrefix_iff.mpr (List.prefix_append _ _),
    List.dropWhile_append_of_pos hb, List.dropWhile_cons_of_neg (by decide)]
  rfl

variable {allow : List Text} {n : ℕ} {st : ReplaceScan}

/-- A line with tokens is neither blank nor a comment. -/
theorem strip_of_tokens {raw : Text} {tok : Token} {ts : List Token} {cm : Bool}
    (h : Lexes g raw (tok :: ts) cm) :
    ∃ t, strip raw = tok.text ++ t ∧ Starts g tok t ∧ Lexes g t ts cm ∧ strip raw ≠ [] ∧
      ¬slashes <+: strip raw := by
  rcases lexes_cases (lexes_strip h) (strip_stripped raw) with
    ⟨-, hts, -⟩ | ⟨-, hts, -⟩ | ⟨tok', t, ts', htext, hts, hstart, ht⟩
  · cases hts
  · cases hts
  · obtain ⟨rfl, rfl⟩ := List.cons.inj hts
    refine ⟨t, htext, hstart, ht, ?_, htext ▸ Starts.not_comment hstart⟩
    obtain ⟨⟨c, r, hcr, -⟩, -⟩ := starts_ends hstart
    rw [htext, hcr]
    simp

theorem read_comment {s : Text} (hs : slashes <+: s) :
    st.read allow n s = { st with prev := .comment, blankSince := false } := by
  obtain ⟨r, rfl⟩ := hs
  have hkey : (slashes ++ r).hasPrefix replaceKey = false := rfl
  have hslashes : (slashes ++ r).hasPrefix slashes = true :=
    Text.hasPrefix_iff.mpr (List.prefix_append _ _)
  have hne : slashes ++ r ≠ [] := by simp [slashes]
  have hparen : slashes ++ r ≠ [')'] := by simp [slashes]
  simp [ReplaceScan.read, hne, hparen, hslashes, opensBlock, startsReplace, hkey]

theorem read_inBlock {s : Text} (hblock : st.inBlock = true) (hne : s ≠ []) (hparen : s ≠ [')'])
    (hslash : ¬slashes <+: s) : st.read allow n s = st.entry allow n s s := by
  have hslashes : ¬s.hasPrefix slashes = true := fun h => hslash (Text.hasPrefix_iff.mp h)
  rw [ReplaceScan.read, if_neg hne, if_pos hblock, if_neg hparen, if_neg hslashes]

theorem read_top {s : Text} (hblock : st.inBlock = false) (hne : s ≠ []) (hslash : ¬slashes <+: s) :
    st.read allow n s =
      if opensBlock s then
        { st with
          inBlock := true
          prev := if st.prev = .comment ∧ st.blankSince = false then .openedCommented else .opened
          blankSince := false }
      else if startsReplace s then st.entry allow n s (strip (s.drop replaceKey.length))
      else { st with prev := .other, blankSince := false } := by
  have hslashes : ¬s.hasPrefix slashes = true := fun h => hslash (Text.hasPrefix_iff.mp h)
  rw [ReplaceScan.read, if_neg hne, if_neg (by simp [hblock]), if_neg hslashes]

theorem entry_bad {s x : Text} (h : (st.entry allow n s x).bad = []) :
    st.explained = true ∧ checkTarget allow n s (strip (beforeComment x)) = [] := by
  simp only [ReplaceScan.entry, List.append_eq_nil_iff] at h
  refine ⟨?_, h.2⟩
  by_contra hnot
  have := h.1.2
  rw [if_neg hnot] at this
  cases this

theorem IsPath.isDirectoryPath {t : Text} (h : IsPath t) : isDirectoryPath t = true := by
  rcases h with h | h | h <;>
    simp only [ModFile.isDirectoryPath, Text.hasPrefix_iff.mpr h, Bool.or_true, Bool.true_or]

theorem IsPath.startsPath {t : Text} (h : IsPath t) : startsPath t = true := by
  rcases h with ⟨r, rfl⟩ | ⟨r, rfl⟩ | ⟨r, rfl⟩ <;> rfl

/-- A directive that names a directory has one argument behind the arrow. -/
theorem args_of_directory {ts : List Token} {target : Text} (h : g.parseReplace ts = some target)
    (hdir : isDirectoryPath target = true) :
    ∃ tok, ts = beforeArrow ts ++ [.word arrow, tok] ∧ g.value tok = some target := by
  have hreplacement : ∀ rest, g.replacement rest = some target →
      ∃ tok, rest = [tok] ∧ g.value tok = some target := by
    intro rest hrest
    rcases rest with _ | ⟨tok, _ | ⟨version, _ | ⟨more, rest⟩⟩⟩
    · cases hrest
    · exact ⟨tok, rfl, (Option.filter_eq_some_iff.mp hrest).1⟩
    · simp only [Rules.replacement] at hrest
      split_ifs at hrest
      have := (Option.filter_eq_some_iff.mp hrest).2
      simp [hdir] at this
    · cases hrest
  rcases ts with _ | ⟨path, _ | ⟨tok, rest⟩⟩
  · cases h
  · cases h
  simp only [Rules.parseReplace] at h
  by_cases harrow : tok = .word arrow
  · rw [if_pos harrow] at h
    obtain ⟨-, -, h⟩ := Option.bind_eq_some_iff.mp h
    obtain ⟨last, rfl, hvalue⟩ := hreplacement rest h
    exact ⟨last, by simp [beforeArrow, harrow], hvalue⟩
  · rw [if_neg harrow] at h
    rcases rest with _ | ⟨tok', rest⟩
    · cases h
    · simp only at h
      split_ifs at h with hversion
      obtain ⟨-, -, h⟩ := Option.bind_eq_some_iff.mp h
      obtain ⟨last, rfl, hvalue⟩ := hreplacement rest h
      exact ⟨last, by simp [beforeArrow, harrow, hversion.1], hvalue⟩

theorem lexes_mem_punct {x : Text} {ts : List Token} {cm : Bool} (h : Lexes g x ts cm) {c : Char}
    (hc : .punct c ∈ ts) : c ∈ punctuation := by
  induction h with
  | done => cases hc
  | comment t => cases hc
  | blank _ _ ih => exact ih hc
  | token hstart _ ih =>
    rcases List.mem_cons.mp hc with rfl | hc
    · exact hstart
    · exact ih hc

/-- An entry that is read as it stands has its path looked up. -/
theorem target_mem_allow {x target s : Text} {ts : List Token} {cm : Bool} (h : Lexes g x ts cm)
    (hparse : g.parseReplace ts = some target) (hpath : IsPath target)
    (hbare : ∀ tok ∈ ts, tok.isQuoted = false)
    (hnone : ∀ tok ∈ beforeArrow ts, ¬arrow <:+: tok.text)
    (hok : checkTarget allow n s (strip (beforeComment x)) = []) : target ∈ allow := by
  obtain ⟨tok, hts, hvalue⟩ := args_of_directory hparse hpath.isDirectoryPath
  have hmem : tok ∈ ts := by
    rw [hts]
    simp
  have htext : tok.text = target := by
    cases tok with
    | quoted q => cases hbare _ hmem
    | punct c =>
      simp only [Rules.value] at hvalue
      split_ifs at hvalue
      exact Option.some.inj hvalue
    | word w =>
      simp only [Rules.value] at hvalue
      split_ifs at hvalue
      exact Option.some.inj hvalue
  obtain ⟨w, rfl⟩ : ∃ w, tok = .word w := by
    cases tok with
    | quoted q => cases hbare _ hmem
    | word w => exact ⟨w, rfl⟩
    | punct c =>
      have hc := lexes_mem_punct h hmem
      have hstart := hpath.startsPath
      rw [← htext] at hstart
      simp only [startsPath, Token.text, List.head?_cons, Bool.or_eq_true, decide_eq_true_eq,
        Option.some.injEq] at hstart
      rcases hstart with rfl | rfl <;> exact absurd hc (by decide)
  have hpre : ∀ tok ∈ beforeArrow ts, tok.isQuoted = false := by
    intro u hu
    exact hbare u (by rw [hts]; exact List.mem_append_left _ hu)
  obtain rfl : w = target := htext
  rw [hts] at h
  exact checkTarget_directory h hpre hnone hok hpath.startsPath

/-- What the scan's variables say of the line above and of the block the line is in. -/
structure Follows (b : Block) (above : Bool) (st : ReplaceScan) : Prop where
  above : st.prev = .comment → st.blankSince = false → above = true
  closed : st.inBlock = false → st.prev ≠ .openedCommented
  top : b = .top → st.inBlock = false
  visible : ∀ o commented first, b = .replaces o commented first → ¬HiddenBlock o →
    st.inBlock = true ∧ (st.prev = .openedCommented → commented = true ∧ first = true)
  hidden : ∀ o commented first, b = .replaces o commented first → HiddenBlock o →
    st.inBlock = false

/-- A line with tokens leaves nothing of the comment above it. -/
theorem read_of_tokens (allow : List Text) (n : ℕ) (st : ReplaceScan) {raw : Text} {tok : Token}
    {ts : List Token} {cm : Bool} (h : Lexes g raw (tok :: ts) cm) :
    (st.read allow n (strip raw)).prev ≠ .comment ∧
      ((st.read allow n (strip raw)).inBlock = false →
        (st.read allow n (strip raw)).prev ≠ .openedCommented) := by
  obtain ⟨t, -, -, -, hne, hslash⟩ := strip_of_tokens h
  cases hblock : st.inBlock with
  | true =>
    by_cases hparen : strip raw = [')']
    · rw [ReplaceScan.read, if_neg hne, if_pos hblock, if_pos hparen]
      exact ⟨by simp, by simp⟩
    · rw [read_inBlock hblock hne hparen hslash]
      exact ⟨by simp [ReplaceScan.entry], by simp [ReplaceScan.entry]⟩
  | false =>
    rw [read_top hblock hne hslash]
    split_ifs <;> simp [ReplaceScan.entry]

/-- Outside a block the scan stays there, but for a line that opens one. -/
theorem inBlock_read_of_not_opens {raw : Text} {tok : Token} {ts : List Token} {cm : Bool}
    (h : Lexes g raw (tok :: ts) cm) (hblock : st.inBlock = false)
    (hopen : tok :: ts ≠ [.word replaceKey, .punct '(']) :
    (st.read allow n (strip raw)).inBlock = false := by
  obtain ⟨t, -, -, -, hne, hslash⟩ := strip_of_tokens h
  have hnot : ¬opensBlock (strip raw) = true := fun hopens =>
    hopen (tokens_of_opensBlock (lexes_strip h) (strip_stripped raw) hopens).1
  rw [read_top hblock hne hslash, if_neg hnot]
  split_ifs <;> simpa [ReplaceScan.entry] using hblock

/-- A line that closes a block ends the scan's block as well. -/
theorem inBlock_read_close {raw : Text} {cm : Bool} (h : Lexes g raw [.punct ')'] cm)
    (hbad : (st.read allow n (strip raw)).bad = []) :
    (st.read allow n (strip raw)).inBlock = false := by
  obtain ⟨t, -, -, -, hne, hslash⟩ := strip_of_tokens h
  cases hblock : st.inBlock with
  | false => exact inBlock_read_of_not_opens h hblock (by simp)
  | true =>
    by_cases hparen : strip raw = [')']
    · rw [ReplaceScan.read, if_neg hne, if_pos hblock, if_pos hparen]
    · -- with a comment behind it the parenthesis is taken for a malformed entry
      rw [read_inBlock hblock hne hparen hslash] at hbad
      exact absurd (entry_bad hbad).2 (checkTarget_malformed (lexes_strip h)
        (by simp [Token.isQuoted]) (by simp [Token.text, arrow, List.infix_cons_iff]) allow n _)

/-- What the scan owes a directive: a comment above it, and an allowed path. -/
def Kept (allow : List Text) (d : Directive) : Prop :=
  ¬Unseen d → d.commented = true ∧ (¬Misread d → IsPath d.target → d.target ∈ allow)

theorem kept_of_entry {d : Directive} {x s : Text} {cm : Bool} (h : Lexes g x d.args cm)
    (hparse : g.parseReplace d.args = some d.target)
    (hok : checkTarget allow n s (strip (beforeComment x)) = [])
    (hcommented : d.commented = true) : Kept allow d := by
  intro _
  refine ⟨hcommented, fun hread hpath => ?_⟩
  simp only [Misread, not_or, not_exists, not_and, Bool.not_eq_true] at hread
  exact target_mem_allow h hparse hpath hread.1 hread.2 hok

theorem closeBlock_some {ts : List Token} {b : Block} {ds : List Directive}
    (h : closeBlock ts = some (b, ds)) : ts = [.punct ')'] ∧ b = .top ∧ ds = [] := by
  rw [closeBlock] at h
  split_ifs at h with hts
  obtain ⟨rfl, rfl⟩ := Prod.mk.inj (Option.some.inj h)
  exact ⟨hts, rfl, rfl⟩

/-- Behind a line that closes a block both are at the top level. -/
theorem follows_close {raw : Text} {cm : Bool} (h : Lexes g raw [.punct ')'] cm)
    (hbad : (st.read allow n (strip raw)).bad = []) :
    Follows .top false (st.read allow n (strip raw)) := by
  obtain ⟨hcomment, hopened⟩ := read_of_tokens allow n st h
  exact ⟨fun hprev => absurd hprev hcomment, hopened, fun _ => inBlock_read_close h hbad,
    (by rintro _ _ _ ⟨⟩), (by rintro _ _ _ ⟨⟩)⟩

/-- A line in a block of other directives. -/
theorem read_follows_others {above : Bool} {l : Line} {tok : Token} {ts : List Token}
    (htokens : l.tokens = tok :: ts) (hlex : Lexes g l.raw l.tokens l.comment)
    {b : Block} {ds : List Directive} (hparse : g.parseLine .others above l = some (b, ds))
    (hbad : (st.read allow n (strip l.raw)).bad = []) :
    Follows b false (st.read allow n (strip l.raw)) ∧ ∀ d ∈ ds, Kept allow d := by
  rw [htokens] at hlex
  simp only [Rules.parseLine, htokens] at hparse
  split_ifs at hparse with hclose
  · obtain ⟨hts, rfl, rfl⟩ := closeBlock_some hparse
    rw [hts] at hlex
    exact ⟨follows_close hlex hbad, by simp⟩
  · obtain ⟨rfl, rfl⟩ := Prod.mk.inj (Option.some.inj hparse)
    obtain ⟨hcomment, hopened⟩ := read_of_tokens allow n st hlex
    refine ⟨⟨fun hprev => absurd hprev hcomment, hopened, ?_, ?_, ?_⟩, by simp⟩
    · rintro ⟨⟩
    · rintro _ _ _ ⟨⟩
    · rintro _ _ _ ⟨⟩

/-- A line in a block of replace directives. -/
theorem read_follows_replaces {o : Line} {commented first above : Bool}
    (hinv : Follows (.replaces o commented first) above st) {l : Line} {tok : Token}
    {ts : List Token} (htokens : l.tokens = tok :: ts) (hlex : Lexes g l.raw l.tokens l.comment)
    {b : Block} {ds : List Directive}
    (hparse : g.parseLine (.replaces o commented first) above l = some (b, ds))
    (hbad : (st.read allow n (strip l.raw)).bad = []) :
    Follows b false (st.read allow n (strip l.raw)) ∧ ∀ d ∈ ds, Kept allow d := by
  rw [htokens] at hlex
  simp only [Rules.parseLine, htokens] at hparse
  split_ifs at hparse with hclose
  · obtain ⟨hts, rfl, rfl⟩ := closeBlock_some hparse
    rw [hts] at hlex
    exact ⟨follows_close hlex hbad, by simp⟩
  obtain ⟨target, htarget, hr⟩ := Option.map_eq_some_iff.mp hparse
  obtain ⟨rfl, rfl⟩ := Prod.mk.inj hr
  obtain ⟨hcomment, hopened⟩ := read_of_tokens allow n st hlex
  by_cases hhidden : HiddenBlock o
  · -- the scan is outside, and none of the entries opens a block
    have hstays : (st.read allow n (strip l.raw)).inBlock = false := by
      apply inBlock_read_of_not_opens hlex (hinv.hidden o commented first rfl hhidden)
      intro hts
      rw [hts] at htarget
      cases htarget
    refine ⟨⟨fun hprev => absurd hprev hcomment, hopened, by rintro ⟨⟩, ?_,
      fun _ _ _ _ _ => hstays⟩, ?_⟩
    · rintro o' c f ⟨⟩ hvisible
      exact absurd hhidden hvisible
    · intro d hd hseen
      obtain rfl := List.mem_singleton.mp hd
      exact absurd (.inr ⟨o, rfl, hhidden⟩) hseen
  · obtain ⟨hblock, hfirst⟩ := hinv.visible o commented first rfl hhidden
    obtain ⟨t, htext, hstart, -, hne, hslash⟩ := strip_of_tokens hlex
    have hparen : strip l.raw ≠ [')'] := by
      intro hs
      exact hclose (Starts.punct_of_head hstart (by decide) (htext.symm.trans hs)).1
    rw [read_inBlock hblock hne hparen hslash] at hbad ⊢
    obtain ⟨hexplained, hok⟩ := entry_bad hbad
    refine ⟨⟨by simp [ReplaceScan.entry], by simp [ReplaceScan.entry], by rintro ⟨⟩, ?_, ?_⟩, ?_⟩
    · rintro o' c f ⟨⟩ -
      exact ⟨hblock, by simp [ReplaceScan.entry]⟩
    · rintro o' c f ⟨⟩ hh
      exact absurd hh hhidden
    · intro d hd
      obtain rfl := List.mem_singleton.mp hd
      refine kept_of_entry (lexes_strip hlex) htarget hok ?_
      simp only [ReplaceScan.explained, Bool.and_eq_true, Bool.or_eq_true, decide_eq_true_eq,
        Bool.not_eq_true'] at hexplained
      obtain ⟨hprev | hprev, hblank⟩ := hexplained
      · simp [hinv.above hprev hblank]
      · simp [hfirst hprev]

/-- A line of the top level that opens no block for the scan. -/
theorem follows_top {above : Bool} (hinv : Follows .top above st) {raw : Text} {tok : Token}
    {ts : List Token} {cm : Bool} (h : Lexes g raw (tok :: ts) cm)
    (hopen : tok :: ts ≠ [.word replaceKey, .punct '(']) (allow : List Text) (n : ℕ) :
    Follows .top false (st.read allow n (strip raw)) := by
  obtain ⟨hcomment, hopened⟩ := read_of_tokens allow n st h
  exact ⟨fun hprev => absurd hprev hcomment, hopened,
    fun _ => inBlock_read_of_not_opens h (hinv.top rfl) hopen,
    (by rintro _ _ _ ⟨⟩), (by rintro _ _ _ ⟨⟩)⟩

/-- A line that opens a block of replace directives. -/
theorem follows_open {above : Bool} (hinv : Follows .top above st) {l : Line}
    (hlex : Lexes g l.raw [.word replaceKey, .punct '('] l.comment)
    (hbad : (st.read allow n (strip l.raw)).bad = []) :
    Follows (.replaces l above true) false (st.read allow n (strip l.raw)) := by
  obtain ⟨t, htext, hstart, ht, hne, hslash⟩ := strip_of_tokens hlex
  have hblock := hinv.top rfl
  rw [read_top hblock hne hslash] at hbad ⊢
  cases hcm : l.comment with
  | false =>
    rw [hcm] at ht
    rw [if_pos (opensBlock_of_tokens (strip_stripped _) htext ht)]
    have hvisible : ¬HiddenBlock l := by simp [HiddenBlock, hcm]
    refine ⟨?_, by simp, by rintro ⟨⟩, ?_, ?_⟩
    · intro hprev
      simp only at hprev
      split_ifs at hprev
    · rintro _ _ _ ⟨⟩ -
      refine ⟨rfl, fun hprev => ⟨?_, rfl⟩⟩
      by_cases hcomment : st.prev = .comment ∧ st.blankSince = false
      · exact hinv.above hcomment.1 hcomment.2
      · rw [if_neg hcomment] at hprev
        cases hprev
    · rintro _ _ _ ⟨⟩ hhidden
      exact absurd hhidden hvisible
  | true =>
    have hnot : ¬opensBlock (strip l.raw) = true := by
      intro hopens
      have hnone := (tokens_of_opensBlock (lexes_strip hlex) (strip_stripped _) hopens).2
      rw [hcm] at hnone
      cases hnone
    rw [if_neg hnot] at hbad ⊢
    by_cases hstarts : startsReplace (strip l.raw) = true
    · -- the scan takes the line for an entry, and a malformed one
      rw [if_pos hstarts, htext, Token.text, List.drop_left] at hbad
      exact absurd (entry_bad hbad).2 (checkTarget_malformed (lexes_strip ht)
        (by simp [Token.isQuoted]) (by simp [Token.text, arrow, List.infix_cons_iff]) allow n _)
    · have hglued := (startsReplace_or_glued htext hstart ht).resolve_left hstarts
      rw [if_neg hstarts]
      refine ⟨by simp, by simp, by rintro ⟨⟩, ?_, ?_⟩
      · rintro _ _ _ ⟨⟩ hvisible
        exact absurd ⟨hcm, hglued⟩ hvisible
      · exact fun _ _ _ _ _ => hblock

/-- A directive of the top level. -/
theorem kept_top {above : Bool} (hinv : Follows .top above st) {l : Line} {ts : List Token}
    (hlex : Lexes g l.raw (.word replaceKey :: ts) l.comment) {target : Text}
    (htarget : g.parseReplace ts = some target)
    (hbad : (st.read allow n (strip l.raw)).bad = []) :
    Kept allow ⟨l, none, ts, target, above⟩ := by
  intro hseen
  obtain ⟨t, htext, hstart, ht, hne, hslash⟩ := strip_of_tokens hlex
  have hnot : ¬opensBlock (strip l.raw) = true := by
    intro hopens
    have hts := (tokens_of_opensBlock (lexes_strip hlex) (strip_stripped _) hopens).1
    rw [(List.cons.inj hts).2] at htarget
    cases htarget
  have hstarts : startsReplace (strip l.raw) = true := by
    cases ts with
    | nil => cases htarget
    | cons tok ts =>
      exact (startsReplace_or_glued htext hstart ht).resolve_right
        (fun hglued => hseen (.inl ⟨rfl, hglued⟩))
  rw [read_top (hinv.top rfl) hne hslash, if_neg hnot, if_pos hstarts, htext, Token.text,
    List.drop_left] at hbad
  obtain ⟨hexplained, hok⟩ := entry_bad hbad
  refine kept_of_entry (d := ⟨l, none, ts, target, above⟩) (lexes_strip ht) htarget hok ?_ hseen
  simp only [ReplaceScan.explained, Bool.and_eq_true, Bool.or_eq_true, decide_eq_true_eq,
    Bool.not_eq_true'] at hexplained
  obtain ⟨hprev | hprev, hblank⟩ := hexplained
  · exact hinv.above hprev hblank
  · exact absurd hprev (hinv.closed (hinv.top rfl))

/-- A line of the top level. -/
theorem read_follows_top {above : Bool} (hinv : Follows .top above st) {l : Line} {tok : Token}
    {ts : List Token} (htokens : l.tokens = tok :: ts) (hlex : Lexes g l.raw l.tokens l.comment)
    {b : Block} {ds : List Directive} (hparse : g.parseLine .top above l = some (b, ds))
    (hbad : (st.read allow n (strip l.raw)).bad = []) :
    Follows b false (st.read allow n (strip l.raw)) ∧ ∀ d ∈ ds, Kept allow d := by
  rw [htokens] at hlex
  simp only [Rules.parseLine, htokens] at hparse
  by_cases hopen : ts ≠ [] ∧ (tok :: ts).getLast? = some (.punct '(')
  · rw [if_pos hopen] at hparse
    obtain ⟨rfl, rfl⟩ := Prod.mk.inj (Option.some.inj hparse)
    by_cases hkey : tok :: ts.dropLast = [.word replaceKey]
    · obtain ⟨rfl, hdrop⟩ := List.cons.inj hkey
      have hts : ts = [.punct '('] := by
        rw [List.getLast?_cons_of_ne_nil hopen.1] at hopen
        obtain ⟨r, rfl⟩ := List.getLast?_eq_some_iff.mp hopen.2
        rw [List.dropLast_concat] at hdrop
        rw [hdrop, List.nil_append]
      rw [hts] at hlex
      rw [if_pos hkey]
      exact ⟨follows_open hinv hlex hbad, by simp⟩
    · rw [if_neg hkey]
      obtain ⟨hcomment, hopened⟩ := read_of_tokens allow n st hlex
      refine ⟨⟨fun hprev => absurd hprev hcomment, hopened, ?_, ?_, ?_⟩, by simp⟩
      · rintro ⟨⟩
      · rintro _ _ _ ⟨⟩
      · rintro _ _ _ ⟨⟩
  · rw [if_neg hopen] at hparse
    have htop : tok :: ts ≠ [.word replaceKey, .punct '('] := by
      rintro ⟨⟩
      exact hopen ⟨by simp, rfl⟩
    have hfollows := follows_top hinv hlex htop allow n
    split_ifs at hparse with hempty hkey
    · obtain ⟨rfl, rfl⟩ := Prod.mk.inj (Option.some.inj hparse)
      exact ⟨hfollows, by simp⟩
    · obtain ⟨target, htarget, hr⟩ := Option.map_eq_some_iff.mp hparse
      obtain ⟨rfl, rfl⟩ := Prod.mk.inj hr
      refine ⟨hfollows, fun d hd => ?_⟩
      obtain rfl := List.mem_singleton.mp hd
      rw [hkey] at hlex
      exact kept_top hinv hlex htarget hbad
    · obtain ⟨rfl, rfl⟩ := Prod.mk.inj (Option.some.inj hparse)
      exact ⟨hfollows, by simp⟩

/-- A line keeps the scan beside the grammar, and the directives on it are kept. -/
theorem read_follows {b b' : Block} {above : Bool} (hinv : Follows b above st) {l : Line}
    (hlex : Lexes g l.raw l.tokens l.comment) {ds : List Directive}
    (hparse : g.parseLine b above l = some (b', ds))
    (hbad : (st.read allow n (strip l.raw)).bad = []) :
    Follows b' l.isComment (st.read allow n (strip l.raw)) ∧ ∀ d ∈ ds, Kept allow d := by
  cases htokens : l.tokens with
  | cons tok ts =>
    have hcomment : l.isComment = false := by simp [Line.isComment, htokens]
    rw [hcomment]
    cases b with
    | top => exact read_follows_top hinv htokens hlex hparse hbad
    | replaces o commented first => exact read_follows_replaces hinv htokens hlex hparse hbad
    | others => exact read_follows_others htokens hlex hparse hbad
  | nil =>
    simp only [Rules.parseLine, htokens] at hparse
    obtain ⟨rfl, rfl⟩ := Prod.mk.inj (Option.some.inj hparse)
    refine ⟨?_, by simp⟩
    rw [htokens] at hlex
    rcases lexes_cases (lexes_strip hlex) (strip_stripped l.raw) with
      ⟨hnil, -, hcm⟩ | ⟨hslash, -, hcm⟩ | ⟨tok, t, ts', -, hts, -⟩
    · rw [hnil, ReplaceScan.read, if_pos rfl]
      exact ⟨by simp, hinv.closed, hinv.top, hinv.visible, hinv.hidden⟩
    · rw [read_comment hslash]
      have hcomment : l.isComment = true := by simp [Line.isComment, htokens, hcm]
      refine ⟨fun _ _ => hcomment, by simp, hinv.top, ?_, hinv.hidden⟩
      intro o commented first hb hvisible
      exact ⟨(hinv.visible o commented first hb hvisible).1, by simp⟩
    · cases hts

theorem bad_isPrefix_read (allow : List Text) (n : ℕ) (st : ReplaceScan) (s : Text) :
    st.bad <+: (st.read allow n s).bad := by
  have hentry : ∀ x, st.bad <+: (st.entry allow n s x).bad := by
    intro x
    simp only [ReplaceScan.entry, List.append_assoc]
    exact List.prefix_append _ _
  rw [ReplaceScan.read]
  split_ifs <;> first | exact hentry _ | exact List.prefix_refl _

theorem bad_isPrefix_scan (allow : List Text) (n : ℕ) (st : ReplaceScan) (ls : List Text) :
    st.bad <+: (scanReplace allow n st ls).bad := by
  induction ls generalizing n st with
  | nil => exact List.prefix_refl _
  | cons raw ls ih => exact (bad_isPrefix_read allow n st (strip raw)).trans (ih _ _)

/-- A scan without an objection has kept every directive. -/
theorem scan_kept {ls : List Line} (hlex : ∀ l ∈ ls, Lexes g l.raw l.tokens l.comment) {b : Block}
    {above : Bool} (hinv : Follows b above st) {ds : List Directive}
    (hparse : g.parse b above ls = some ds)
    (hbad : (scanReplace allow n st (ls.map Line.raw)).bad = []) : ∀ d ∈ ds, Kept allow d := by
  induction ls generalizing n st b above ds with
  | nil =>
    cases b with
    | top =>
      obtain rfl : [] = ds := Option.some.inj hparse
      simp
    | replaces o commented first => cases hparse
    | others => cases hparse
  | cons l ls ih =>
    have hline : (st.read allow n (strip l.raw)).bad = [] :=
      List.prefix_nil.mp (hbad ▸ bad_isPrefix_scan allow (n + 1) _ _)
    have hcons : g.parse b above (l :: ls) = (g.parseLine b above l).bind (fun r =>
        (g.parse r.1 l.isComment ls).map (fun ds => r.2 ++ ds)) := by
      cases b <;> rfl
    rw [hcons] at hparse
    obtain ⟨r, hr, hrest⟩ := Option.bind_eq_some_iff.mp hparse
    obtain ⟨more, hmore, rfl⟩ := Option.map_eq_some_iff.mp hrest
    obtain ⟨hnext, hkept⟩ := read_follows hinv (hlex l (by simp)) hr hline
    intro d hd
    rcases List.mem_append.mp hd with hd | hd
    · exact hkept d hd
    · exact ih (fun m hm => hlex m (by simp [hm])) hnext hmore hbad d hd

theorem scan_congr {ls ms : List Text} (h : ls.map strip = ms.map strip) (allow : List Text) (n : ℕ)
    (st : ReplaceScan) : scanReplace allow n st ls = scanReplace allow n st ms := by
  induction ls generalizing ms n st with
  | nil =>
    cases ms with
    | nil => rfl
    | cons m ms => cases h
  | cons l ls ih =>
    cases ms with
    | nil => cases h
    | cons m ms =>
      obtain ⟨hhead, htail⟩ := List.cons.inj h
      rw [scanReplace, scanReplace, hhead, ih htail]

/-- An empty line at the end has no part in the verdict. -/
theorem scan_concat_nil (allow : List Text) (n : ℕ) (st : ReplaceScan) (ls : List Text) :
    (scanReplace allow n st (ls ++ [[]])).bad = (scanReplace allow n st ls).bad := by
  induction ls generalizing n st with
  | nil => rfl
  | cons l ls ih => exact ih (n + 1) _

theorem strip_lines {text : Text} (h : ¬Lines.LoneReturn text) :
    ((Lines.universal text).splitOn '\n').map strip = text.lines.map strip := by
  have hends := Lines.splitOn_universal h
  rw [Text.lines]
  generalize (Lines.universal text).splitOn '\n' = ms at hends ⊢
  generalize text.splitOn '\n' = ls at hends ⊢
  induction hends with
  | nil => rfl
  | cons hline _ ih =>
    rw [List.map_cons, List.map_cons, ih]
    rcases hline with rfl | rfl
    · rfl
    · rw [strip_concat (by decide)]

/-- Without a lone carriage return the scan sees the lines of the grammar. -/
theorem scan_fileLines {text : Text} (h : ¬Lines.LoneReturn text) (allow : List Text) :
    (scanReplace allow 1 .start (Lines.fileLines text)).bad =
      (scanReplace allow 1 .start text.lines).bad := by
  rw [← scan_congr (strip_lines h) allow 1 .start]
  rw [Lines.fileLines]
  split_ifs with hlast
  · obtain ⟨ls, hls⟩ := List.getLast?_eq_some_iff.mp hlast
    rw [hls, List.dropLast_concat, scan_concat_nil]
  · rfl

/-- A directive in order: a path it names is allowed, and a comment explains it. -/
structure Disciplined (allow : List Text) (d : Directive) : Prop where
  target : IsPath d.target → d.target ∈ allow
  commented : d.commented = true

/-- A file that the scan reads as the grammar does: no lone carriage return, no directive
that is hidden from it, and no path behind a string or an arrow. -/
structure Readable (text : Text) (ds : List Directive) : Prop where
  returns : ¬Lines.LoneReturn text
  seen : ∀ d ∈ ds, ¬Unseen d
  read : ∀ d ∈ ds, IsPath d.target → ¬Misread d

/-- The check is sound for a file that it can read. -/
theorem cmdReplace_sound {text : Text} {ds : List Directive} (h : g.Accepts text ds)
    (hread : Readable text ds) {allow : Text} (hzero : cmdReplace allow text = 0) :
    ∀ d ∈ ds, Disciplined (words allow) d := by
  intro d hd
  obtain ⟨ls, hls, hlex, hparse⟩ := h
  have hbad : (scanReplace (words allow) 1 .start (ls.map Line.raw)).bad = [] := by
    rw [hls, ← scan_fileLines hread.returns]
    by_contra hnot
    simp [cmdReplace, hnot] at hzero
  have hinv : Follows .top false .start :=
    ⟨by simp [ReplaceScan.start], by simp [ReplaceScan.start], fun _ => rfl,
      (by rintro _ _ _ ⟨⟩), (by rintro _ _ _ ⟨⟩)⟩
  obtain ⟨hcommented, htarget⟩ := scan_kept hlex hinv hparse hbad d hd (hread.seen d hd)
  exact ⟨fun hpath => htarget (hread.read d hd hpath) hpath, hcommented⟩

/-- ASCII, strings without escapes, and versions by their first letter. -/
def plainRules : Rules where
  printable _ := false
  unquote q := if '\\' ∈ q then none else some (q.drop 1).dropLast
  isVersion v := v.head? = some 'v'

/-- A word in front of a blank or of the end of its line. -/
theorem lexes_word {w t : Text} {ts : List Token} {cm : Bool} (hne : w ≠ [])
    (hplain : w.all (fun c => g.isIdent c && c ≠ '\x22' && c ≠ '\x60') = true)
    (hwhole : (w ++ t).tails.all (fun b => ¬slashes <+: b ∧ ¬['/', '*'] <+: b) = true)
    (hstop : t.head?.all (fun c => !g.isIdent c) = true) (h : Lexes g t ts cm) :
    Lexes g (w ++ t) (.word w :: ts) cm := by
  have hall : ∀ c ∈ w, g.isIdent c = true ∧ c ≠ '\x22' ∧ c ≠ '\x60' := by
    simpa [and_assoc] using hplain
  have hhead : ∀ q : Char, q = '\x22' ∨ q = '\x60' → w.head? ≠ some q := by
    rintro q hq hw
    have hmem := hall q (List.mem_of_mem_head? hw)
    rcases hq with rfl | rfl <;> simp at hmem
  have hstart : Starts g (.word w) t := by
    refine ⟨hne, fun c hc => (hall c hc).1, ⟨hhead _ (.inl rfl), hhead _ (.inr rfl)⟩, ?_, ?_⟩
    · rintro a b rfl -
      have hb : b ++ t ∈ (a ++ b ++ t).tails := (List.mem_tails _ _).mpr ⟨a, by simp⟩
      exact of_decide_eq_true (List.all_eq_true.mp hwhole _ hb)
    · left
      intro c hc
      simpa [Option.mem_def.mp hc] using hstop
  exact .token hstart h

def quotedTarget : Text := "\"../evil\"".toList

/-- The lines of a file whose directive has its target in quotes. -/
def quotedLines : List Line :=
  [⟨"module example.org".toList, [.word "module".toList, .word "example.org".toList], false⟩,
    ⟨[], [], false⟩,
    ⟨"// a local fix".toList, [], true⟩,
    ⟨replaceKey ++ ' ' :: ("example.com".toList ++ ' ' :: (arrow ++ ' ' :: quotedTarget)),
      [.word replaceKey, .word "example.com".toList, .word arrow, .quoted quotedTarget], false⟩,
    ⟨[], [], false⟩]

def quotedText : Text :=
  "module example.org\n\n// a local fix\nreplace example.com => \"../evil\"\n".toList

def quotedDirective : Directive where
  line := ⟨replaceKey ++ ' ' :: ("example.com".toList ++ ' ' :: (arrow ++ ' ' :: quotedTarget)),
    [.word replaceKey, .word "example.com".toList, .word arrow, .quoted quotedTarget], false⟩
  opener := none
  args := [.word "example.com".toList, .word arrow, .quoted quotedTarget]
  target := "../evil".toList
  commented := true

theorem quotedLines_lex : ∀ l ∈ quotedLines, Lexes plainRules l.raw l.tokens l.comment := by
  have hquoted : Starts plainRules (.quoted quotedTarget) [] :=
    ⟨'\x22', "../evil\"".toList, .inl rfl, rfl, rfl⟩
  have htarget : Lexes plainRules (quotedTarget ++ []) [.quoted quotedTarget] false :=
    .token hquoted .done
  have hmodule : Lexes plainRules ("example.org".toList ++ []) [.word "example.org".toList] false :=
    lexes_word (by decide) rfl rfl rfl .done
  intro l hl
  simp only [quotedLines, List.mem_cons, List.not_mem_nil, or_false] at hl
  rcases hl with rfl | rfl | rfl | rfl | rfl
  · exact lexes_word (w := "module".toList) (by decide) rfl rfl rfl (.blank (.inl rfl) hmodule)
  · exact .done
  · exact .comment " a local fix".toList
  · refine lexes_word (by decide) rfl rfl rfl (.blank (.inl rfl) ?_)
    refine lexes_word (by decide) rfl rfl rfl (.blank (.inl rfl) ?_)
    refine lexes_word (by decide) rfl rfl rfl (.blank (.inl rfl) htarget)
  · exact .done

theorem quotedText_accepted : plainRules.Accepts quotedText [quotedDirective] :=
  ⟨quotedLines, by decide, quotedLines_lex, by decide⟩

theorem quotedText_passes : cmdReplace localReplaceAllow quotedText = 0 := by decide +kernel

theorem quotedDirective_undisciplined :
    ¬Disciplined (words localReplaceAllow) quotedDirective := by
  intro h
  have hpath : IsPath quotedDirective.target := .inr (.inl (by decide))
  have hallowed : "../evil".toList ∉ words localReplaceAllow := by decide +kernel
  exact hallowed (h.target hpath)

/-- A path in quotes is not looked up. -/
theorem cmdReplace_quotedText :
    plainRules.Accepts quotedText [quotedDirective] ∧ cmdReplace localReplaceAllow quotedText = 0 ∧
      ¬Disciplined (words localReplaceAllow) quotedDirective :=
  ⟨quotedText_accepted, quotedText_passes, quotedDirective_undisciplined⟩

/-- The line of a directive for a sibling. -/
def siblingLine : Line :=
  ⟨replaceKey ++ ' ' :: ("example.com".toList ++ ' ' :: ("v1.2.0".toList ++ ' ' ::
      (arrow ++ ' ' :: ("../apis".toList ++ [])))),
    [.word replaceKey, .word "example.com".toList, .word "v1.2.0".toList, .word arrow,
      .word "../apis".toList], false⟩

/-- The line of a directive for a fork, in a block. -/
def forkLine : Line :=
  ⟨'\t' :: ("example.net".toList ++ ' ' :: (arrow ++ ' ' :: ("example.org/fork".toList ++ ' ' ::
      ("v1.0.0".toList ++ [])))),
    [.word "example.net".toList, .word arrow, .word "example.org/fork".toList,
      .word "v1.0.0".toList], false⟩

def blockLine : Line :=
  ⟨replaceKey ++ ' ' :: '(' :: [], [.word replaceKey, .punct '('], false⟩

/-- A file with both. -/
def siblingLines : List Line :=
  [⟨"// a sibling".toList, [], true⟩, siblingLine, ⟨"// a fork".toList, [], true⟩, blockLine,
    forkLine, ⟨')' :: [], [.punct ')'], false⟩, ⟨[], [], false⟩]

def siblingText : Text :=
  ("// a sibling\nreplace example.com v1.2.0 => ../apis\n" ++
    "// a fork\nreplace (\n\texample.net => example.org/fork v1.0.0\n)\n").toList

def siblingDirectives : List Directive :=
  [{ line := siblingLine
     opener := none
     args := siblingLine.tokens.tail
     target := "../apis".toList
     commented := true },
    { line := forkLine
      opener := some blockLine
      args := forkLine.tokens
      target := "example.org/fork".toList
      commented := true }]

theorem siblingLines_lex : ∀ l ∈ siblingLines, Lexes plainRules l.raw l.tokens l.comment := by
  have hblank : ∀ {t : Text} {ts : List Token}, Lexes plainRules t ts false →
      Lexes plainRules (' ' :: t) ts false := .blank (.inl rfl)
  have hpunct (c : Char) (h : c ∈ punctuation) : Starts plainRules (.punct c) [] := h
  intro l hl
  simp only [siblingLines, List.mem_cons, List.not_mem_nil, or_false] at hl
  rcases hl with rfl | rfl | rfl | rfl | rfl | rfl | rfl
  · exact .comment " a sibling".toList
  · refine lexes_word (by decide) rfl rfl rfl (hblank ?_)
    refine lexes_word (by decide) rfl rfl rfl (hblank ?_)
    refine lexes_word (by decide) rfl rfl rfl (hblank ?_)
    refine lexes_word (by decide) rfl rfl rfl (hblank ?_)
    exact lexes_word (by decide) rfl rfl rfl .done
  · exact .comment " a fork".toList
  · refine lexes_word (by decide) rfl rfl rfl (hblank ?_)
    exact .token (hpunct '(' (by decide)) .done
  · refine .blank (.inr (.inl rfl)) ?_
    refine lexes_word (by decide) rfl rfl rfl (hblank ?_)
    refine lexes_word (by decide) rfl rfl rfl (hblank ?_)
    refine lexes_word (by decide) rfl rfl rfl (hblank ?_)
    exact lexes_word (by decide) rfl rfl rfl .done
  · exact .token (hpunct ')' (by decide)) .done
  · exact .done

theorem siblingText_readable : Readable siblingText siblingDirectives where
  returns := by
    rintro ⟨a, b, hsplit, -⟩
    have hreturn : '\r' ∉ siblingText := by decide +kernel
    rw [hsplit] at hreturn
    exact hreturn (List.mem_append_right a List.mem_cons_self)
  seen d hd := by
    have hblank : punctuation.all
        (fun c => !(strip siblingLine.raw).hasPrefix (replaceKey ++ [c])) = true := by
      decide +kernel
    rcases List.mem_pair.mp hd with rfl | rfl
    · rintro (⟨-, c, hc, hglued⟩ | ⟨o, ho, -⟩)
      · have hfree := List.all_eq_true.mp hblank c hc
        rw [Text.hasPrefix_iff.mpr hglued] at hfree
        cases hfree
      · cases ho
    · rintro (⟨ho, -⟩ | ⟨o, ho, hcomment, -⟩)
      · cases ho
      · obtain rfl : blockLine = o := Option.some.inj ho
        cases hcomment
  read d hd _ := by
    have hbare : ∀ d ∈ siblingDirectives, (∀ tok ∈ d.args, tok.isQuoted = false) ∧
        ∀ tok ∈ beforeArrow d.args, ¬arrow <:+: tok.text := by decide +kernel
    rintro (⟨tok, htok, hquoted⟩ | ⟨tok, htok, harrow⟩)
    · rw [(hbare d hd).1 tok htok] at hquoted
      cases hquoted
    · exact (hbare d hd).2 tok htok harrow

theorem cmdReplace_sound_siblingText :
    plainRules.Accepts siblingText siblingDirectives ∧
      cmdReplace localReplaceAllow siblingText = 0 ∧
      ∀ d ∈ siblingDirectives, Disciplined (words localReplaceAllow) d := by
  have haccepts : plainRules.Accepts siblingText siblingDirectives :=
    ⟨siblingLines, by decide +kernel, siblingLines_lex, by decide +kernel⟩
  have hzero : cmdReplace localReplaceAllow siblingText = 0 := by decide +kernel
  exact ⟨haccepts, hzero, cmdReplace_sound haccepts siblingText_readable hzero⟩

end K3smApis.Deps
