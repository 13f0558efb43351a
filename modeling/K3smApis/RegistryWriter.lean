import K3smApis.QuarantineSignature

/-!
# Writing a registry entry

An entry written as one line of words in double quotes. `shellSplit` reads the words back
whatever is in them, but `stripComment`, which runs first, does not know a backslash: a quote
behind one ends the quotation for it, and a '#' after a blank then starts a comment. The line
is read back exactly when no such '#' stands in it and, if a comment follows, `stripComment`
takes every quotation for closed by then.
-/
namespace K3smApis.Quarantine

open Text Civil

/-- A backslash in front of a double quote or a backslash. -/
def escapeRune (c : Char) : Text := if c = doubleQuote ∨ c = '\\' then ['\\', c] else [c]

/-- A word in double quotes. -/
def quoteWord (w : Text) : Text := doubleQuote :: (w.flatMap escapeRune ++ [doubleQuote])

/-- Words in double quotes with a space behind each. -/
def spaced (ws : List Text) : Text := ws.flatMap (fun w => quoteWord w ++ [' '])

/-- Words in double quotes with a space between them. -/
def writeWords (ws : List Text) : Text := [' '].intercalate (ws.map quoteWord)

/-- A space, a '#' and the rest of the line. -/
def writeComment : Option Text → Text
  | none => []
  | some c => ' ' :: '#' :: c

def fieldWord (kv : Text × Text) : Text := kv.1 ++ '=' :: kv.2

/-- The words of an entry: the test id and the fields. -/
def entryWords (test : Text) (kvs : List (Text × Text)) : List Text := test :: kvs.map fieldWord

def writeEntry (test : Text) (kvs : List (Text × Text)) (comment : Option Text) : Text :=
  writeWords (entryWords test kvs) ++ writeComment comment

theorem double_escape (acc w t : Text) :
    shellSplitFrom .double (some acc) (w.flatMap escapeRune ++ doubleQuote :: t) =
      shellSplitFrom .plain (some (acc ++ w)) t := by
  induction w generalizing acc with
  | nil => simp [shellSplitFrom]
  | cons c w ih =>
    have happend : acc ++ [c] ++ w = acc ++ c :: w := by simp
    rw [List.flatMap_cons, List.append_assoc, ← happend, ← ih]
    by_cases hc : c = doubleQuote ∨ c = '\\'
    · have hhead : (some c = some doubleQuote ∨ some c = some '\\') := by simpa using hc
      rw [escapeRune, if_pos hc]
      simp only [List.cons_append, List.nil_append, shellSplitFrom, List.head?_cons, hhead]
      simp [doubleQuote]
    · rw [not_or] at hc
      rw [escapeRune, if_neg (by simpa using hc), List.singleton_append, shellSplitFrom,
        if_neg hc.1, if_neg (by simp [hc.2])]
      rfl

theorem split_quoteWord (w t : Text) :
    shellSplitFrom .plain none (quoteWord w ++ t) = shellSplitFrom .plain (some w) t := by
  have hquote : ¬(doubleQuote = ' ' ∨ doubleQuote = '\t' ∨ doubleQuote = '\r' ∨
      doubleQuote = '\n') := by decide
  rw [quoteWord, List.cons_append, shellSplitFrom, if_neg hquote, if_neg (by decide),
    if_neg (by decide), if_pos rfl, List.append_assoc, List.singleton_append]
  exact double_escape [] w t

/-- A blank after a word ends it. -/
theorem split_blank (w t : Text) :
    shellSplitFrom .plain (some w) (' ' :: t) = (w :: ·) <$> shellSplitFrom .plain none t := rfl

/-- Words with a space behind each are read one by one. -/
theorem split_spaced (ws : List Text) (t : Text) :
    shellSplitFrom .plain none (spaced ws ++ t) =
      (ws ++ ·) <$> shellSplitFrom .plain none t := by
  induction ws with
  | nil =>
    rw [spaced, List.flatMap_nil, List.nil_append]
    cases shellSplitFrom .plain none t <;> rfl
  | cons w ws ih =>
    rw [spaced, List.flatMap_cons, ← spaced, List.append_assoc, List.append_assoc, split_quoteWord,
      List.singleton_append, split_blank, ih]
    cases shellSplitFrom .plain none t <;> rfl

theorem spaced_cons (w : Text) (ws : List Text) :
    spaced (w :: ws) = quoteWord w ++ ' ' :: spaced ws := by
  rw [spaced, List.flatMap_cons, ← spaced, List.append_assoc, List.singleton_append]

theorem writeWords_cons {w : Text} {ws : List Text} (h : ws ≠ []) :
    writeWords (w :: ws) = quoteWord w ++ ' ' :: writeWords ws := by
  obtain ⟨v, ws, rfl⟩ := List.exists_cons_of_ne_nil h
  simp [writeWords, List.intercalate_cons_cons]

theorem writeWords_singleton (w : Text) : writeWords [w] = quoteWord w := by simp [writeWords]

theorem writeWords_concat (ws : List Text) (w : Text) :
    writeWords (ws ++ [w]) = spaced ws ++ quoteWord w := by
  induction ws with
  | nil => exact writeWords_singleton w
  | cons v ws ih =>
    rw [List.cons_append, writeWords_cons (by simp), ih, spaced_cons, List.append_assoc,
      List.cons_append]

theorem split_writeWords (ws : List Text) (w t : Text) :
    shellSplitFrom .plain none (writeWords (ws ++ [w]) ++ t) =
      (ws ++ ·) <$> shellSplitFrom .plain (some w) t := by
  rw [writeWords_concat, List.append_assoc, split_spaced, split_quoteWord]

theorem double_cut {acc w p r : Text} (h : w.flatMap escapeRune = p ++ r) :
    shellSplitFrom .double (some acc) p = .error .noClosingQuotation := by
  induction w generalizing acc p with
  | nil =>
    obtain ⟨rfl, -⟩ := List.append_eq_nil_iff.mp h.symm
    rfl
  | cons c w ih =>
    rw [List.flatMap_cons] at h
    by_cases hc : c = doubleQuote ∨ c = '\\'
    · rw [escapeRune, if_pos hc] at h
      -- the cut may fall between the backslash and the rune it escapes
      cases p with
      | nil => rfl
      | cons b p =>
        obtain ⟨rfl, hrest⟩ : '\\' = b ∧ c :: w.flatMap escapeRune = p ++ r := by simpa using h
        cases p with
        | nil => rfl
        | cons d p =>
          obtain ⟨rfl, htail⟩ : c = d ∧ w.flatMap escapeRune = p ++ r := by simpa using hrest
          have hhead : (some c = some doubleQuote ∨ some c = some '\\') := by simpa using hc
          rw [shellSplitFrom, if_neg (by decide), if_pos ⟨rfl, hhead⟩, shellSplitFrom]
          exact ih htail
    · rw [escapeRune, if_neg hc] at h
      rw [not_or] at hc
      cases p with
      | nil => rfl
      | cons b p =>
        obtain ⟨rfl, hrest⟩ : c = b ∧ w.flatMap escapeRune = p ++ r := by simpa using h
        rw [shellSplitFrom, if_neg hc.1, if_neg (by simp [hc.2])]
        exact ih hrest

theorem split_cut {w p r : Text} (ws : List Text) (h : w.flatMap escapeRune = p ++ r) :
    shellSplit (spaced ws ++ doubleQuote :: p) =
      .error .noClosingQuotation := by
  have hquote : ¬(doubleQuote = ' ' ∨ doubleQuote = '\t' ∨ doubleQuote = '\r' ∨
      doubleQuote = '\n') := by decide
  rw [shellSplit, split_spaced, shellSplitFrom, if_neg hquote, if_neg (by decide),
    if_neg (by decide), if_pos rfl, double_cut h]
  rfl

/-- A '#' of a word in quotes is one of the word. -/
theorem hash_in_quoteWord {w a b : Text} (h : quoteWord w = a ++ '#' :: b) :
    ∃ p r, a = doubleQuote :: p ∧ w.flatMap escapeRune = p ++ '#' :: r := by
  rw [quoteWord] at h
  cases a with
  | nil => exact absurd (List.cons.inj h).1 (by decide)
  | cons c p =>
    obtain ⟨rfl, hrest⟩ := List.cons.inj h
    refine ⟨p, b.dropLast, rfl, ?_⟩
    -- the closing quote is the last rune of what follows the '#'
    rcases List.eq_nil_or_concat b with rfl | ⟨b, c, rfl⟩
    · exact absurd (List.append_inj' hrest rfl).2 (by decide)
    · have hlast : w.flatMap escapeRune ++ [doubleQuote] = (p ++ '#' :: b) ++ [c] := by
        simpa using hrest
      rw [List.concat_eq_append, List.dropLast_concat]
      exact (List.append_inj' hlast rfl).1

/-- A '#' of the line stands in one of its words. -/
theorem hash_in_word {ws : List Text} {a b : Text} (h : writeWords ws = a ++ '#' :: b) :
    ∃ (ws₁ ws₂ : List Text) (w p r : Text), ws = ws₁ ++ w :: ws₂ ∧
      a = spaced ws₁ ++ doubleQuote :: p ∧ w.flatMap escapeRune = p ++ '#' :: r := by
  induction ws generalizing a with
  | nil => simp [writeWords] at h
  | cons w ws ih =>
    by_cases hws : ws = []
    · subst hws
      rw [writeWords_singleton] at h
      obtain ⟨p, r, ha, hw⟩ := hash_in_quoteWord h
      exact ⟨[], [], w, p, r, rfl, ha, hw⟩
    rw [writeWords_cons hws, List.append_eq_append_iff] at h
    rcases h with ⟨t, rfl, ht⟩ | ⟨t, hword, ht⟩
    · -- behind the first word
      cases t with
      | nil => exact absurd (List.cons.inj ht).1 (by decide)
      | cons c t =>
        obtain ⟨rfl, hrest⟩ := List.cons.inj ht
        obtain ⟨ws₁, ws₂, v, p, r, rfl, rfl, hv⟩ := ih hrest
        refine ⟨w :: ws₁, ws₂, v, p, r, rfl, ?_, hv⟩
        rw [spaced_cons, List.append_assoc, List.cons_append]
    · cases t with
      | nil => exact absurd (List.cons.inj ht).1 (by decide)
      | cons c t =>
        obtain ⟨rfl, -⟩ := List.cons.inj ht
        obtain ⟨p, r, ha, hw⟩ := hash_in_quoteWord hword
        exact ⟨[], ws, w, p, r, rfl, ha, hw⟩

/-- The open quotation after a rune. -/
def quoteAfter : Option Char → Char → Option Char
  | some q, c => if c = q then none else some q
  | none, c => if c = doubleQuote ∨ c = singleQuote then some c else none

/-- Whether the rune before is a blank. -/
def blankAfter (prevSpace : Bool) (t : Text) : Bool :=
  t.foldl (fun _ c => isCommentBlank c) prevSpace

/-- A '#' at which the line is cut. -/
def CutAt (quote : Option Char) (prevSpace : Bool) (a : Text) : Prop :=
  a.foldl quoteAfter quote = none ∧ blankAfter prevSpace a = true

theorem strip_cons (quote : Option Char) (prevSpace : Bool) (c : Char) (t : Text) :
    stripCommentFrom quote prevSpace (c :: t) =
      if c = '#' ∧ quote = none ∧ prevSpace = true then []
      else c :: stripCommentFrom (quoteAfter quote c) (isCommentBlank c) t := by
  cases quote with
  | some q => simp [stripCommentFrom, quoteAfter]
  | none =>
    by_cases hc : c = doubleQuote ∨ c = singleQuote
    · have hhash : c ≠ '#' := by rcases hc with rfl | rfl <;> decide
      simp [stripCommentFrom, quoteAfter, hc, hhash]
    · simp [stripCommentFrom, quoteAfter, hc]

/-- Without a cut the line goes on behind a text. -/
theorem strip_append {quote : Option Char} {prevSpace : Bool} {s : Text}
    (h : ∀ a b, s = a ++ '#' :: b → ¬CutAt quote prevSpace a) (t : Text) :
    stripCommentFrom quote prevSpace (s ++ t) =
      s ++ stripCommentFrom (s.foldl quoteAfter quote) (blankAfter prevSpace s) t := by
  induction s generalizing quote prevSpace with
  | nil => rfl
  | cons c s ih =>
    have hhere : ¬(c = '#' ∧ quote = none ∧ prevSpace = true) := by
      rintro ⟨rfl, hquote, hspace⟩
      exact h [] s rfl ⟨hquote, hspace⟩
    rw [List.cons_append, strip_cons, if_neg hhere, List.cons_append]
    congr 1
    exact ih fun a b hab => h (c :: a) b (by rw [hab, List.cons_append])

/-- A line is cut at the first '#' that allows it. -/
theorem strip_cut {quote : Option Char} {prevSpace : Bool} {s : Text}
    (h : ∃ a b, s = a ++ '#' :: b ∧ CutAt quote prevSpace a) (t : Text) :
    ∃ a b, s = a ++ '#' :: b ∧ stripCommentFrom quote prevSpace (s ++ t) = a := by
  induction s generalizing quote prevSpace with
  | nil =>
    obtain ⟨a, b, hab, -⟩ := h
    simp at hab
  | cons c s ih =>
    by_cases hhere : c = '#' ∧ quote = none ∧ prevSpace = true
    · refine ⟨[], s, by rw [hhere.1]; rfl, ?_⟩
      rw [List.cons_append, strip_cons, if_pos hhere]
    · obtain ⟨a, b, hab, hcut⟩ := h
      cases a with
      | nil => exact absurd ⟨(List.cons.inj hab).1, hcut.1, hcut.2⟩ hhere
      | cons d a =>
        obtain ⟨rfl, hrest⟩ := List.cons.inj hab
        obtain ⟨a', b', hs, hstrip⟩ := ih ⟨a, b, hrest, hcut⟩
        refine ⟨c :: a', b', by rw [hs, List.cons_append], ?_⟩
        rw [List.cons_append, strip_cons, if_neg hhere, hstrip]

/-- Every quotation of a text is closed, a backslash being a rune like any other. -/
inductive Closed : Text → Prop
  | nil : Closed []
  | rune {t : Text} {c : Char} (ht : Closed t) (hc : c ≠ doubleQuote ∧ c ≠ singleQuote) :
      Closed (t ++ [c])
  | quotation {t u : Text} {q : Char} (ht : Closed t) (hq : q = doubleQuote ∨ q = singleQuote)
      (hu : q ∉ u) : Closed (t ++ q :: u ++ [q])

/-- What an open quotation means: it was opened behind closed ones and is not ended. -/
theorem quoteAfter_spec (t : Text) :
    (t.foldl quoteAfter none = none → Closed t) ∧
      ∀ q, t.foldl quoteAfter none = some q →
        ∃ a u, t = a ++ q :: u ∧ Closed a ∧ q ∉ u ∧ (q = doubleQuote ∨ q = singleQuote) := by
  induction t using List.reverseRecOn with
  | nil => exact ⟨fun _ => .nil, by simp⟩
  | append_singleton t c ih =>
    rw [List.foldl_append]
    cases hstate : t.foldl quoteAfter none with
    | none =>
      have ht := ih.1 hstate
      simp only [List.foldl_cons, List.foldl_nil, quoteAfter]
      split_ifs with hc
      · refine ⟨by simp, fun q hq => ?_⟩
        cases hq
        exact ⟨t, [], rfl, ht, List.not_mem_nil, hc⟩
      · exact ⟨fun _ => .rune ht (not_or.mp hc), by simp⟩
    | some q =>
      obtain ⟨a, u, rfl, ha, hu, hq⟩ := ih.2 q hstate
      simp only [List.foldl_cons, List.foldl_nil, quoteAfter]
      split_ifs with hc
      · subst hc
        exact ⟨fun _ => .quotation ha hq hu, by simp⟩
      · refine ⟨by simp, fun q' hq' => ?_⟩
        cases hq'
        exact ⟨a, u ++ [c], by simp, ha, by simpa using ⟨hu, Ne.symm hc⟩, hq⟩

theorem foldl_quoteAfter_of_notMem {q : Char} {u : Text} (h : q ∉ u) :
    u.foldl quoteAfter (some q) = some q := by
  induction u with
  | nil => rfl
  | cons c u ih =>
    obtain ⟨hc, hu⟩ := not_or.mp (List.mem_cons.not.mp h)
    rw [List.foldl_cons, quoteAfter, if_neg (Ne.symm hc), ih hu]

theorem closed_iff {t : Text} : Closed t ↔ t.foldl quoteAfter none = none := by
  refine ⟨fun h => ?_, (quoteAfter_spec t).1⟩
  induction h with
  | nil => rfl
  | rune _ hc ih =>
    rw [List.foldl_append, ih, List.foldl_cons, quoteAfter, if_neg (not_or.mpr hc)]
    rfl
  | @quotation t u q _ hq hu ih =>
    have hopen : quoteAfter none q = some q := if_pos hq
    have hclose : quoteAfter (some q) q = none := if_pos rfl
    simp only [List.foldl_append, List.foldl_cons, List.foldl_nil, ih, hopen,
      foldl_quoteAfter_of_notMem hu, hclose]

theorem closed_concat_blank {a : Text} {c : Char} (hc : isCommentBlank c = true) :
    Closed (a ++ [c]) ↔ Closed a := by
  have hne : c ≠ doubleQuote ∧ c ≠ singleQuote := by
    constructor <;> rintro rfl <;> exact absurd hc (by decide)
  refine ⟨fun h => ?_, fun h => .rune h hne⟩
  rw [closed_iff, List.foldl_append] at h
  cases hstate : a.foldl quoteAfter none with
  | none => exact closed_iff.mpr hstate
  | some q =>
    obtain ⟨-, -, -, -, -, hq⟩ := (quoteAfter_spec a).2 q hstate
    have hcq : c ≠ q := by rcases hq with rfl | rfl <;> simp [hne]
    simp [hstate, quoteAfter, hcq] at h

theorem cutAt_concat {a : Text} {c : Char} :
    CutAt none true (a ++ [c]) ↔ Closed a ∧ isCommentBlank c = true := by
  rw [CutAt, ← closed_iff, blankAfter, List.foldl_append, List.foldl_cons, List.foldl_nil]
  exact and_congr_left fun hc => closed_concat_blank hc

/-- The comment stripper takes nothing of a body, and ends it at a comment. -/
structure CommentSafe (body : Text) (comment : Option Text) : Prop where
  quoted : ∀ a c b, body = a ++ c :: '#' :: b → isCommentBlank c = true → ¬Closed a
  ended : comment.isSome = true → Closed body

theorem trimSpace_quoted {a : Text} {c : Char} (ha : (a ++ [c]).head? = some doubleQuote)
    (hc : isSpace c = false) (t : Text) :
    trimSpace (a ++ c :: t) = a ++ c :: t.rdropWhile isSpace := by
  have hdrop : (a ++ c :: t).dropWhile isSpace = a ++ c :: t := by
    cases a with
    | nil => exact List.dropWhile_cons_of_neg (by simp [hc])
    | cons d a =>
      obtain rfl : d = doubleQuote := by simpa using ha
      exact List.dropWhile_cons_of_neg (by decide)
  rw [trimSpace, hdrop, rdropWhile_append_cons hc]

theorem head?_spaced (ws : List Text) (t : Text) :
    (spaced ws ++ doubleQuote :: t).head? = some doubleQuote := by
  cases ws with
  | nil => rfl
  | cons w ws => rw [spaced_cons, quoteWord]; rfl

theorem exists_writeWords_eq {ws : List Text} (h : ws ≠ []) :
    ∃ a, writeWords ws = a ++ [doubleQuote] ∧
      (a ++ [doubleQuote]).head? = some doubleQuote := by
  obtain ⟨ws, w, rfl⟩ := (List.eq_nil_or_concat ws).resolve_left h
  refine ⟨spaced ws ++ doubleQuote :: w.flatMap escapeRune, ?_, ?_⟩
  · rw [List.concat_eq_append, writeWords_concat, quoteWord, List.append_assoc, List.cons_append]
  · rw [List.append_assoc, List.cons_append]
    exact head?_spaced ws _

theorem shellSplit_writeWords (ws : List Text) : shellSplit (writeWords ws) = .ok ws := by
  rcases List.eq_nil_or_concat ws with rfl | ⟨ws, w, rfl⟩
  · rfl
  · have h := split_writeWords ws w []
    rw [List.append_nil] at h
    rw [List.concat_eq_append, shellSplit, h]
    rfl

theorem shellSplit_writeWords_append {ws : List Text} (h : ws ≠ []) (t : Text) :
    shellSplit (writeWords ws ++ ' ' :: t) = (ws ++ ·) <$> shellSplit t := by
  obtain ⟨ws, w, rfl⟩ := (List.eq_nil_or_concat ws).resolve_left h
  rw [List.concat_eq_append, shellSplit, shellSplit, split_writeWords, split_blank]
  cases shellSplitFrom .plain none t <;> simp [Functor.map, Except.map]

/-- A word that was begun is the start of the first one returned. -/
theorem shellSplitFrom_begun {mode : SplitMode} {w t : Text} {ws : List Text}
    (h : shellSplitFrom mode (some w) t = .ok ws) : ∃ u ws', ws = (w ++ u) :: ws' := by
  induction t generalizing mode w with
  | nil =>
    cases mode <;> simp only [shellSplitFrom, reduceCtorEq, Except.ok.injEq] at h
    exact ⟨[], [], by simp [← h]⟩
  | cons c t ih =>
    have hadd : ∀ {m}, shellSplitFrom m (some (w ++ [c])) t = .ok ws →
        ∃ u ws', ws = (w ++ u) :: ws' := fun h => by
      obtain ⟨u, ws', hws⟩ := ih h
      exact ⟨c :: u, ws', by simpa using hws⟩
    cases mode with
    | plain =>
      simp only [shellSplitFrom, Option.getD_some] at h
      split_ifs at h
      · cases hrest : shellSplitFrom .plain none t with
        | error e => simp [hrest] at h
        | ok rest =>
          simp only [hrest, Except.map_ok, Except.ok.injEq] at h
          exact ⟨[], rest, by simp [← h]⟩
      · exact ih h
      · exact ih h
      · exact ih h
      · exact hadd h
    | escaped => exact hadd h
    | single =>
      simp only [shellSplitFrom, Option.getD_some] at h
      split_ifs at h
      · exact ih h
      · exact hadd h
    | double =>
      simp only [shellSplitFrom, Option.getD_some] at h
      split_ifs at h
      · exact ih h
      · exact ih h
      · exact hadd h
    | doubleEscaped => exact hadd h

theorem unixLines_eq_self {t : Text} (h : '\n' ∉ t) : unixLines t = t := by
  induction t with
  | nil => rfl
  | cons c t ih =>
    obtain ⟨-, ht⟩ := not_or.mp (List.mem_cons.not.mp h)
    rw [unixLines, ih ht]
    rintro t rfl rfl
    exact ht List.mem_cons_self

/-- The line as `parseRegistry` splits it. -/
def registryLine (raw : Text) : Text := (stripComment raw).trimSpace

theorem parseRegistry_line {raw : Text} (h : '\n' ∉ raw) :
    parseRegistry raw =
      ((({} : Registry).read (raw, 1)).entries, (({} : Registry).read (raw, 1)).errs) := by
  have hlines : (unixLines raw).lines = [raw] := by
    rw [unixLines_eq_self h]
    exact List.splitOnP_eq_singleton (by simpa using fun c hc => ne_of_mem_of_not_mem hc h)
  have hlisted : ¬maxEntries < (({} : Registry).read (raw, 1)).listed := by
    simp only [Registry.read]
    repeat' split
    all_goals simp [maxEntries]
  simp only [parseRegistry, hlines, List.zipIdx_cons, List.zipIdx_nil, List.foldl_cons,
    List.foldl_nil, if_neg hlisted, List.append_nil]

/-- A line that does not split is reported. -/
theorem errs_ne_nil_of_split {raw : Text} (h : '\n' ∉ raw) {e : SplitError}
    (hsplit : shellSplit (registryLine raw) = .error e) : (parseRegistry raw).2 ≠ [] := by
  have hline : registryLine raw ≠ [] := by
    intro hnil
    rw [hnil] at hsplit
    cases hsplit
  rw [registryLine] at hline hsplit
  rw [parseRegistry_line h]
  simp [Registry.read, hline, hsplit]

/-- The registry of a line whose words are an entry's. -/
theorem parseRegistry_words {raw test : Text} {rest : List Text} (h : '\n' ∉ raw)
    (hsplit : shellSplit (registryLine raw) = .ok (test :: rest)) :
    parseRegistry raw = match parseEntry [] 1 test rest with
      | .error errs => ([], errs)
      | .ok e => ([e], []) := by
  have hline : registryLine raw ≠ [] := by
    intro hnil
    rw [hnil] at hsplit
    cases hsplit
  rw [registryLine] at hline hsplit
  rw [parseRegistry_line h]
  cases hentry : parseEntry [] 1 test rest <;> simp [Registry.read, hline, hsplit, hentry]

theorem keyValue_fieldWord {k v : Text} (hk : k ∈ requiredKeys) :
    keyValue (fieldWord (k, v)) = some (k, v) := by
  have hkey : k ≠ [] ∧ ∀ c ∈ k, c.isLower = true := by
    have hall : requiredKeys.all (fun k => k ≠ [] ∧ k.all Char.isLower) = true := by decide
    simpa using List.all_eq_true.mp hall k hk
  have htake : (fieldWord (k, v)).takeWhile Char.isLower = k := by
    rw [fieldWord, List.takeWhile_append_of_pos hkey.2,
      List.takeWhile_cons_of_neg (by decide), List.append_nil]
  rw [keyValue, htake, fieldWord, List.drop_left]
  exact if_neg hkey.1

theorem read_fieldWord {f : Fields} {kv : Text × Text} (n : ℕ) (hk : kv.1 ∈ requiredKeys)
    (hv : kv.2.trimSpace ≠ []) (hnew : ∀ p ∈ f.values, p.1 ≠ kv.1) :
    f.read n (fieldWord kv) = { f with values := kv :: f.values } := by
  have hlookup : f.values.lookup kv.1 = none :=
    List.lookup_eq_none_iff.mpr fun p hp => by simpa using (hnew p hp).symm
  rw [Fields.read, keyValue_fieldWord hk]
  simp [hk, hlookup, hv]

/-- Distinct keys with their values are all kept. -/
theorem foldl_read_fieldWords {f : Fields} {kvs : List (Text × Text)} (n : ℕ)
    (hk : ∀ kv ∈ kvs, kv.1 ∈ requiredKeys ∧ kv.2.trimSpace ≠ [])
    (hdistinct : (kvs.map Prod.fst).Nodup)
    (hnew : ∀ p ∈ f.values, ∀ kv ∈ kvs, p.1 ≠ kv.1) :
    (kvs.map fieldWord).foldl (Fields.read n) f =
      { f with values := kvs.reverse ++ f.values } := by
  induction kvs generalizing f with
  | nil => rfl
  | cons kv kvs ih =>
    obtain ⟨hkv, hkvs⟩ := List.forall_mem_cons.mp hk
    rw [List.map_cons, List.nodup_cons] at hdistinct
    rw [List.map_cons, List.foldl_cons,
      read_fieldWord n hkv.1 hkv.2 fun p hp => hnew p hp kv List.mem_cons_self, ih hkvs hdistinct.2]
    · simp
    · intro p hp q hq
      rcases List.mem_cons.mp hp with rfl | hp
      · intro heq
        exact hdistinct.1 (heq ▸ List.mem_map_of_mem hq)
      · exact hnew p hp q (List.mem_cons_of_mem _ hq)

theorem lookup_of_mem {kvs : List (Text × Text)} (hdistinct : (kvs.map Prod.fst).Nodup)
    {k v : Text} (h : (k, v) ∈ kvs) : kvs.lookup k = some v := by
  obtain ⟨l, r, rfl⟩ := List.append_of_mem h
  refine List.lookup_eq_some_iff.mpr ⟨l, r, rfl, fun p hp => ?_⟩
  rw [List.map_append, List.nodup_append] at hdistinct
  simpa using (hdistinct.2.2 p.1 (List.mem_map_of_mem hp) k (by simp)).symm

theorem Fields.read_errs_ne_nil {f : Fields} (h : f.errs ≠ []) (n : ℕ) (tok : Text) :
    (f.read n tok).errs ≠ [] := by
  unfold Fields.read
  repeat' split
  all_goals simp [h]

/-- A token that is no field is reported. -/
theorem foldl_read_errs_ne_nil {toks : List Text} {tok : Text} {f : Fields} (n : ℕ)
    (hkey : keyValue tok = none) (h : f.errs ≠ [] ∨ tok ∈ toks) :
    (toks.foldl (Fields.read n) f).errs ≠ [] := by
  induction toks generalizing f with
  | nil => exact h.resolve_right List.not_mem_nil
  | cons t toks ih =>
    refine ih ?_
    rcases h with herrs | hmem
    · exact .inl (f.read_errs_ne_nil herrs n t)
    rcases List.mem_cons.mp hmem with rfl | hmem
    · exact .inl (by simp [Fields.read, hkey])
    · exact .inr hmem

theorem parseEntry_errs_ne_nil {test pkg name tok : Text} {toks : List Text} (n : ℕ)
    (hid : splitTestID test = some (pkg, name)) (hkey : keyValue tok = none) (htok : tok ∈ toks) :
    ∃ errs, errs ≠ [] ∧ parseEntry [] n test toks = .error errs := by
  have herrs := foldl_read_errs_ne_nil (f := {}) n hkey (.inr htok)
  have hall : (toks.foldl (Fields.read n) {}).errs ++ (toks.foldl (Fields.read n) {}).missing n ≠
      [] := List.append_ne_nil_of_left_ne_nil herrs _
  refine ⟨_, hall, ?_⟩
  rw [parseEntry, hid, readFields, if_neg hall]
  rfl

/-- The six values of an entry. -/
structure EntryValues where
  sig : Text
  owner : Text
  filed : Text
  deadline : Text
  fix : Text
  reason : Text

def EntryValues.pairs (v : EntryValues) : List (Text × Text) :=
  [("sig".toList, v.sig), ("owner".toList, v.owner), ("filed".toList, v.filed),
    ("deadline".toList, v.deadline), ("fix".toList, v.fix), ("reason".toList, v.reason)]

/-- Values that stand on one line, are not blank, and pass the checks of the registry for a
test id. -/
structure EntryValues.Fit (v : EntryValues) (test pkg name : Text) (deadlineDate : Date) :
    Prop where
  oneLine : ∀ kv ∈ v.pairs, '\n' ∉ kv.2
  nonblank : ∀ kv ∈ v.pairs, kv.2.trimSpace ≠ []
  id : splitTestID test = some (pkg, name)
  dates : ∃ filedDate, parseDate v.filed = some filedDate ∧
    parseDate v.deadline = some deadlineDate ∧ ¬deadlineDate.before filedDate
  sig_length : minSigChars ≤ v.sig.length
  sig_race : raceMarker v.sig = none
  sig_harness : harnessReason test name v.sig = none
  unprotected : protectedReason pkg name = none

/-- The entry of the values on the first line. -/
def EntryValues.entry (v : EntryValues) (test pkg : Text) (deadlineDate : Date) : Entry :=
  { line := 1, test := test, pkg := pkg, sig := v.sig, owner := v.owner, fix := v.fix,
    deadline := v.deadline, deadlineDate := deadlineDate }

section Written

variable {v : EntryValues} {test pkg name : Text} {deadlineDate : Date}
  {kvs : List (Text × Text)} {comment : Option Text}

theorem entryWords_ne_nil (test : Text) (kvs : List (Text × Text)) : entryWords test kvs ≠ [] :=
  List.cons_ne_nil _ _

theorem EntryValues.keys (v : EntryValues) : v.pairs.map Prod.fst = requiredKeys := rfl

theorem keys_nodup (hperm : kvs.Perm v.pairs) : (kvs.map Prod.fst).Nodup := by
  rw [(hperm.map Prod.fst).nodup_iff, EntryValues.keys]
  decide

theorem lookup_written (hperm : kvs.Perm v.pairs) {kv : Text × Text} (hkv : kv ∈ v.pairs) :
    kvs.reverse.lookup kv.1 = some kv.2 := by
  refine lookup_of_mem ?_ (List.mem_reverse.mpr (hperm.mem_iff.mpr hkv))
  rw [List.map_reverse, List.nodup_reverse]
  exact keys_nodup hperm

theorem readFields_written (h : v.Fit test pkg name deadlineDate) (hperm : kvs.Perm v.pairs)
    (n : ℕ) : readFields n (kvs.map fieldWord) = .ok { values := kvs.reverse } := by
  have hfold : (kvs.map fieldWord).foldl (Fields.read n) {} = { values := kvs.reverse } := by
    rw [foldl_read_fieldWords n _ (keys_nodup hperm) (by simp), List.append_nil]
    intro kv hkv
    rw [hperm.mem_iff] at hkv
    refine ⟨?_, h.nonblank kv hkv⟩
    rw [← v.keys]
    exact List.mem_map_of_mem hkv
  have hnone : requiredKeys.filter (fun k => kvs.reverse.lookup k = none) = [] := by
    rw [List.filter_eq_nil_iff]
    intro k hk
    rw [← v.keys] at hk
    obtain ⟨kv, hkv, rfl⟩ := List.mem_map.mp hk
    simp [lookup_written hperm hkv]
  have hmissing : ({ values := kvs.reverse } : Fields).missing n = [] := by
    rw [Fields.missing, hnone]
  simp [readFields, hfold, hmissing]

theorem get_written (hperm : kvs.Perm v.pairs) {k : String} {x : Text}
    (hkv : (k.toList, x) ∈ v.pairs) : ({ values := kvs.reverse } : Fields).get k = x := by
  rw [Fields.get, lookup_written hperm hkv]
  rfl

theorem parseEntry_written (h : v.Fit test pkg name deadlineDate) (hperm : kvs.Perm v.pairs) :
    parseEntry [] 1 test (kvs.map fieldWord) = .ok (v.entry test pkg deadlineDate) := by
  obtain ⟨filedDate, hfiled, hdeadline, hbefore⟩ := h.dates
  have hsig := get_written hperm (k := "sig") (x := v.sig) (by simp [EntryValues.pairs])
  have howner := get_written hperm (k := "owner") (x := v.owner) (by simp [EntryValues.pairs])
  have hf := get_written hperm (k := "filed") (x := v.filed) (by simp [EntryValues.pairs])
  have hd := get_written hperm (k := "deadline") (x := v.deadline) (by simp [EntryValues.pairs])
  have hfix := get_written hperm (k := "fix") (x := v.fix) (by simp [EntryValues.pairs])
  simp only [parseEntry, except_bind_ok, Prod.exists, orRefuse_ok, Unique.exists_iff,
    PUnit.default_eq_unit, Check.refuseIf_ok, refuseOn_ok, readFields_written h hperm]
  refine ⟨pkg, name, h.id, _, rfl, filedDate, hf ▸ hfiled, deadlineDate, hd ▸ hdeadline, hbefore,
    ?_⟩
  rw [hsig, howner, hd, hfix]
  exact ⟨Nat.not_lt.mpr h.sig_length, h.sig_race, h.sig_harness, h.unprotected, rfl, rfl⟩

theorem swiftID_noBlank (h : swiftID test = some (pkg, name)) : ∀ c ∈ test, isBlank c = false := by
  simp only [swiftID] at h
  split at h
  · next rest hdrop =>
    split at h
    · next case hcase =>
      split_ifs at h with hcond
      simp only [Bool.and_eq_true, List.all_eq_true, Bool.not_eq_true'] at hcond
      have htest : test = test.takeWhile isWord ++ '/' :: rest := by
        rw [← hdrop]
        exact List.prefix_iff_eq_append.mp (List.takeWhile_prefix _) |>.symm
      have hrest : rest = rest.takeWhile isWord ++ '/' :: case := by
        rw [← hcase]
        exact List.prefix_iff_eq_append.mp (List.takeWhile_prefix _) |>.symm
      intro c hc
      rw [htest, hrest] at hc
      simp only [List.mem_append, List.mem_cons] at hc
      rcases hc with hc | rfl | hc | rfl | hc
      · exact isBlank_eq_false_of_isWord (List.mem_takeWhile_imp hc)
      · rfl
      · exact isBlank_eq_false_of_isWord (List.mem_takeWhile_imp hc)
      · rfl
      · exact hcond.2 c hc
    · cases h
  · cases h

theorem splitTestID_noBlank (h : splitTestID test = some (pkg, name)) :
    ∀ c ∈ test, isBlank c = false := by
  unfold splitTestID at h
  split at h
  · next id hgo =>
    rw [h] at hgo
    exact (goID_some hgo).2.2
  · split_ifs at h
    exact swiftID_noBlank h

theorem mem_quoteWord {w : Text} {c : Char} (h : c ∈ quoteWord w) :
    c = doubleQuote ∨ c = '\\' ∨ c ∈ w := by
  simp only [quoteWord, List.mem_cons, List.mem_append, List.mem_flatMap, List.not_mem_nil,
    or_false] at h
  rcases h with rfl | ⟨d, hd, hc⟩ | rfl
  · exact .inl rfl
  · unfold escapeRune at hc
    split_ifs at hc
    · rcases List.mem_pair.mp hc with rfl | rfl
      · exact .inr (.inl rfl)
      · exact .inr (.inr hd)
    · rw [List.mem_singleton.mp hc]
      exact .inr (.inr hd)
  · exact .inl rfl

theorem mem_writeWords {ws : List Text} {c : Char} (h : c ∈ writeWords ws) :
    c ∈ [' ', doubleQuote, '\\'] ∨ ∃ w ∈ ws, c ∈ w := by
  have hword : ∀ w, c ∈ quoteWord w → c ∈ [' ', doubleQuote, '\\'] ∨ c ∈ w := by
    intro w hc
    rcases mem_quoteWord hc with rfl | rfl | hc
    · exact .inl (by simp)
    · exact .inl (by simp)
    · exact .inr hc
  rcases List.eq_nil_or_concat ws with rfl | ⟨ws, w, rfl⟩
  · simp [writeWords] at h
  rw [List.concat_eq_append, writeWords_concat] at h
  rcases List.mem_append.mp h with h | h
  · obtain ⟨u, hu, hc⟩ := List.mem_flatMap.mp h
    rcases List.mem_append.mp hc with hc | hc
    · exact (hword u hc).imp_right fun hc => ⟨u, by simp [hu], hc⟩
    · exact .inl (by simp [List.mem_singleton.mp hc])
  · exact (hword w h).imp_right fun hc => ⟨w, by simp, hc⟩

theorem newline_notMem_writeEntry (h : v.Fit test pkg name deadlineDate)
    (hperm : kvs.Perm v.pairs) (hcomment : ∀ c ∈ comment, '\n' ∉ c) :
    '\n' ∉ writeEntry test kvs comment := by
  intro hmem
  rcases List.mem_append.mp hmem with hbody | hc
  · rcases mem_writeWords hbody with hc | ⟨w, hw, hc⟩
    · exact absurd hc (by decide)
    rcases List.mem_cons.mp hw with rfl | hw
    · exact absurd (splitTestID_noBlank h.id _ hc) (by decide)
    obtain ⟨kv, hkv, rfl⟩ := List.mem_map.mp hw
    rw [hperm.mem_iff] at hkv
    rcases List.mem_append.mp hc with hc | hc
    · have hkeys : requiredKeys.all (fun k => '\n' ∉ k) = true := by decide
      have hkey : kv.1 ∈ requiredKeys := by
        rw [← v.keys]
        exact List.mem_map_of_mem hkv
      exact absurd hc (of_decide_eq_true (List.all_eq_true.mp hkeys _ hkey))
    · exact h.oneLine kv hkv (by simpa using hc)
  · cases comment with
    | none => exact absurd hc List.not_mem_nil
    | some c => exact hcomment c rfl (by simpa [writeComment] using hc)

theorem head?_writeWords {ws : List Text} (h : ws ≠ []) :
    (writeWords ws).head? = some doubleQuote := by
  obtain ⟨a, ha, hhead⟩ := exists_writeWords_eq h
  rw [ha, hhead]

/-- Where a body is cut: at a '#' behind a blank outside the quotations. -/
theorem exists_cutAt_iff {ws : List Text} :
    (∃ a b, writeWords ws = a ++ '#' :: b ∧ CutAt none true a) ↔
      ∃ a c b, writeWords ws = a ++ c :: '#' :: b ∧ isCommentBlank c = true ∧ Closed a := by
  constructor
  · rintro ⟨a, b, hab, hcut⟩
    rcases List.eq_nil_or_concat a with rfl | ⟨a, c, rfl⟩
    · cases ws with
      | nil => simp [writeWords] at hab
      | cons w ws =>
        have hhead := head?_writeWords (List.cons_ne_nil w ws)
        rw [hab, List.nil_append, List.head?_cons] at hhead
        exact absurd (Option.some.inj hhead) (by decide)
    · rw [List.concat_eq_append] at hab hcut
      obtain ⟨hclosed, hc⟩ := cutAt_concat.mp hcut
      exact ⟨a, c, b, by simpa using hab, hc, hclosed⟩
  · rintro ⟨a, c, b, hab, hc, hclosed⟩
    exact ⟨a ++ [c], b, by simpa using hab, cutAt_concat.mpr ⟨hclosed, hc⟩⟩

theorem CommentSafe.not_cutAt {ws : List Text} (hsafe : CommentSafe (writeWords ws) comment)
    (a b : Text) (hab : writeWords ws = a ++ '#' :: b) : ¬CutAt none true a := by
  intro hcut
  obtain ⟨a, c, b, hab, hc, hclosed⟩ := exists_cutAt_iff.mp ⟨a, b, hab, hcut⟩
  exact hsafe.quoted a c b hab hc hclosed

theorem registryLine_of_safe {ws : List Text} (hws : ws ≠ [])
    (hsafe : CommentSafe (writeWords ws) comment) :
    registryLine (writeWords ws ++ writeComment comment) = writeWords ws := by
  obtain ⟨a, ha, hhead⟩ := exists_writeWords_eq hws
  rw [registryLine, stripComment, strip_append hsafe.not_cutAt]
  cases comment with
  | none =>
    rw [writeComment, stripCommentFrom, List.append_nil, ha]
    exact trimSpace_quoted hhead (by decide) []
  | some c =>
    rw [writeComment, closed_iff.mp (hsafe.ended rfl), strip_cons, if_neg (by simp)]
    have hend : stripCommentFrom none (isCommentBlank ' ') ('#' :: c) = [] := by
      rw [strip_cons, if_pos (by decide)]
    rw [show quoteAfter none ' ' = none from rfl, hend, ha, List.append_assoc]
    exact trimSpace_quoted hhead (by decide) [' ']

theorem parseRegistry_of_safe (h : v.Fit test pkg name deadlineDate) (hperm : kvs.Perm v.pairs)
    (hcomment : ∀ c ∈ comment, '\n' ∉ c)
    (hsafe : CommentSafe (writeWords (entryWords test kvs)) comment) :
    parseRegistry (writeEntry test kvs comment) = ([v.entry test pkg deadlineDate], []) := by
  have hsplit : shellSplit (registryLine (writeEntry test kvs comment)) =
      .ok (test :: kvs.map fieldWord) := by
    rw [writeEntry, registryLine_of_safe (entryWords_ne_nil test kvs) hsafe]
    exact shellSplit_writeWords _
  rw [parseRegistry_words (newline_notMem_writeEntry h hperm hcomment) hsplit,
    parseEntry_written h hperm]

/-- A cut line ends inside a word. -/
theorem shellSplit_of_cut {ws : List Text} (comment : Option Text)
    (hcut : ∃ a b, writeWords ws = a ++ '#' :: b ∧ CutAt none true a) :
    shellSplit (registryLine (writeWords ws ++ writeComment comment)) =
      .error .noClosingQuotation := by
  obtain ⟨a, b, hab, hstrip⟩ := strip_cut hcut (writeComment comment)
  obtain ⟨ws₁, -, w, p, r, -, rfl, hw⟩ := hash_in_word hab
  obtain ⟨q, hq⟩ := List.rdropWhile_prefix isSpace p
  rw [registryLine, stripComment, hstrip, trimSpace_quoted (head?_spaced ws₁ []) (by decide)]
  refine split_cut ws₁ (w := w) (r := q ++ '#' :: r) ?_
  rw [← List.append_assoc, hq, hw]

/-- A comment that is kept is a word of its own. -/
theorem registryLine_of_open {ws : List Text} (hws : ws ≠ []) {c : Text}
    (hcut : ∀ a b, writeWords ws = a ++ '#' :: b → ¬CutAt none true a)
    (hopen : ¬Closed (writeWords ws)) :
    ∃ t, registryLine (writeWords ws ++ writeComment (some c)) =
      writeWords ws ++ ' ' :: '#' :: t := by
  obtain ⟨q, hstate⟩ := Option.ne_none_iff_exists'.mp (closed_iff.not.mp hopen)
  obtain ⟨-, -, -, -, -, hq⟩ := (quoteAfter_spec (writeWords ws)).2 q hstate
  have hblank : quoteAfter (some q) ' ' = some q := by rcases hq with rfl | rfl <;> rfl
  have hhash : quoteAfter (some q) '#' = some q := by rcases hq with rfl | rfl <;> rfl
  obtain ⟨a, ha, hhead⟩ := exists_writeWords_eq hws
  refine ⟨(stripCommentFrom (some q) (isCommentBlank '#') c).rdropWhile isSpace, ?_⟩
  have hkept : stripComment (writeWords ws ++ writeComment (some c)) =
      (writeWords ws ++ [' ']) ++ '#' :: stripCommentFrom (some q) (isCommentBlank '#') c := by
    rw [stripComment, strip_append hcut, hstate, writeComment, strip_cons, if_neg (by simp),
      hblank, strip_cons, if_neg (by simp), hhash, List.append_assoc]
    rfl
  have hfirst : (writeWords ws ++ [' '] ++ ['#']).head? = some doubleQuote := by
    rw [List.append_assoc, List.head?_append_of_ne_nil _ (by simp [ha])]
    exact head?_writeWords hws
  rw [registryLine, hkept, trimSpace_quoted hfirst (by decide), List.append_assoc]
  rfl

theorem errs_ne_nil_of_not_safe (h : v.Fit test pkg name deadlineDate)
    (hperm : kvs.Perm v.pairs) (hcomment : ∀ c ∈ comment, '\n' ∉ c)
    (hnot : ¬CommentSafe (writeWords (entryWords test kvs)) comment) :
    (parseRegistry (writeEntry test kvs comment)).2 ≠ [] := by
  have hline := newline_notMem_writeEntry h hperm hcomment
  by_cases hcut : ∃ a b, writeWords (entryWords test kvs) = a ++ '#' :: b ∧ CutAt none true a
  · exact errs_ne_nil_of_split hline (shellSplit_of_cut comment hcut)
  -- nothing of the body is cut, so the comment is kept
  have hsome : comment.isSome = true ∧ ¬Closed (writeWords (entryWords test kvs)) := by
    by_contra hended
    refine hnot ⟨fun a c b hab hc hclosed => ?_, fun hc => by_contra fun ho => hended ⟨hc, ho⟩⟩
    exact hcut (exists_cutAt_iff.mpr ⟨a, c, b, hab, hc, hclosed⟩)
  obtain ⟨c, rfl⟩ := Option.isSome_iff_exists.mp hsome.1
  obtain ⟨t, ht⟩ := registryLine_of_open (entryWords_ne_nil test kvs)
    (fun a b hab hat => hcut ⟨a, b, hab, hat⟩) hsome.2 (c := c)
  have hsplit := shellSplit_writeWords_append (entryWords_ne_nil test kvs) ('#' :: t)
  cases hrest : shellSplit ('#' :: t) with
  | error e =>
    refine errs_ne_nil_of_split hline (e := e) ?_
    rw [writeEntry, ht]
    exact hsplit.trans (by rw [hrest]; rfl)
  | ok more =>
    obtain ⟨u, more, rfl⟩ := shellSplitFrom_begun (w := ['#']) hrest
    have htok : ['#'] ++ u ∈ kvs.map fieldWord ++ (['#'] ++ u) :: more := by simp
    obtain ⟨errs, hne, herrs⟩ := parseEntry_errs_ne_nil 1 h.id rfl htok
    have hwords : shellSplit (registryLine (writeEntry test kvs (some c))) =
        .ok (test :: (kvs.map fieldWord ++ (['#'] ++ u) :: more)) := by
      rw [writeEntry, ht]
      exact hsplit.trans (by rw [hrest]; rfl)
    rw [parseRegistry_words hline hwords, herrs]
    exact hne

theorem Closed.append {a b : Text} (ha : Closed a) (hb : Closed b) : Closed (a ++ b) := by
  rw [closed_iff] at *
  rw [List.foldl_append, ha, hb]

theorem doubleQuote_notMem_escape {w : Text} (h : doubleQuote ∉ w) :
    doubleQuote ∉ w.flatMap escapeRune := by
  intro hmem
  obtain ⟨c, hc, hq⟩ := List.mem_flatMap.mp hmem
  have hne : c ≠ doubleQuote := ne_of_mem_of_not_mem hc h
  unfold escapeRune at hq
  split_ifs at hq
  · rcases List.mem_pair.mp hq with hq | hq
    · exact absurd hq (by decide)
    · exact hne hq.symm
  · exact hne (List.mem_singleton.mp hq).symm

theorem closed_quoteWord {w : Text} (h : doubleQuote ∉ w) : Closed (quoteWord w) :=
  .quotation .nil (.inl rfl) (doubleQuote_notMem_escape h)

theorem closed_spaced {ws : List Text} (h : ∀ w ∈ ws, doubleQuote ∉ w) : Closed (spaced ws) := by
  induction ws with
  | nil => exact .nil
  | cons w ws ih =>
    obtain ⟨hw, hws⟩ := List.forall_mem_cons.mp h
    rw [spaced_cons]
    have hblank : Closed (quoteWord w ++ [' ']) := .rune (closed_quoteWord hw) (by decide)
    simpa using hblank.append (ih hws)

/-- Without a double quote in a word, the quotations of the line are the words. -/
theorem commentSafe_of_no_doubleQuote {ws : List Text} (h : ∀ w ∈ ws, doubleQuote ∉ w) :
    CommentSafe (writeWords ws) comment where
  quoted a c b hab hc hclosed := by
    rw [List.append_cons] at hab
    obtain ⟨ws₁, ws₂, w, p, r, rfl, ha, hw⟩ := hash_in_word hab
    have hword : doubleQuote ∉ p ++ '#' :: r := hw ▸ doubleQuote_notMem_escape (h w (by simp))
    have hstart : Closed (spaced ws₁) := closed_spaced fun u hu => h u (by simp [hu])
    have hopen : quoteAfter none doubleQuote = some doubleQuote := rfl
    rw [← closed_concat_blank hc, ha, closed_iff, List.foldl_append, closed_iff.mp hstart,
      List.foldl_cons, hopen, foldl_quoteAfter_of_notMem fun hp => hword (by simp [hp])] at hclosed
    cases hclosed
  ended _ := by
    rcases List.eq_nil_or_concat ws with rfl | ⟨ws, w, rfl⟩
    · exact .nil
    · rw [List.concat_eq_append] at h ⊢
      rw [writeWords_concat]
      exact (closed_spaced fun u hu => h u (by simp [hu])).append (closed_quoteWord (h w (by simp)))

/-- Values without a double quote are read back, with any comment. -/
theorem parseRegistry_of_no_doubleQuote (h : v.Fit test pkg name deadlineDate)
    (hperm : kvs.Perm v.pairs) (hcomment : ∀ c ∈ comment, '\n' ∉ c)
    (hquote : ∀ w ∈ entryWords test kvs, doubleQuote ∉ w) :
    parseRegistry (writeEntry test kvs comment) = ([v.entry test pkg deadlineDate], []) :=
  parseRegistry_of_safe h hperm hcomment (commentSafe_of_no_doubleQuote hquote)

/-- A signature that quotes the text of a failure. -/
def quotedSig : EntryValues where
  sig := "got ".toList ++ doubleQuote :: "a #1 of 2".toList
  owner := "net".toList
  filed := "2025-01-01".toList
  deadline := "2025-02-01".toList
  fix := "later".toList
  reason := "flaky".toList

def quotedTest : Text := "example.com/m::TestX".toList

theorem quotedSig_fit :
    quotedSig.Fit quotedTest "example.com/m".toList "TestX".toList ⟨2025, 2, 1⟩ where
  oneLine := by
    have hall : quotedSig.pairs.all (fun kv => '\n' ∉ kv.2) = true := by decide
    exact fun kv hkv => of_decide_eq_true (List.all_eq_true.mp hall kv hkv)
  nonblank := by
    have hall : quotedSig.pairs.all (fun kv => kv.2.trimSpace ≠ []) = true := by decide
    exact fun kv hkv => of_decide_eq_true (List.all_eq_true.mp hall kv hkv)
  id := by decide
  dates := ⟨⟨2025, 1, 1⟩, by decide, by decide, by decide⟩
  sig_length := by decide
  sig_race := by decide
  sig_harness := by decide
  unprotected := by decide

/-- A line is read back exactly when the comment stripper takes nothing of it. -/
theorem entry_read_back_iff (h : v.Fit test pkg name deadlineDate) (hperm : kvs.Perm v.pairs)
    (hcomment : ∀ c ∈ comment, '\n' ∉ c) :
    parseRegistry (writeEntry test kvs comment) = ([v.entry test pkg deadlineDate], []) ↔
      CommentSafe (writeWords (entryWords test kvs)) comment := by
  refine ⟨fun hparse => ?_, parseRegistry_of_safe h hperm hcomment⟩
  by_contra hnot
  exact errs_ne_nil_of_not_safe h hperm hcomment hnot (congrArg Prod.snd hparse)

theorem entry_read_back_iff_quotedSig :
    parseRegistry (writeEntry quotedTest quotedSig.pairs (some "flaky since 1.2".toList)) =
        ([quotedSig.entry quotedTest "example.com/m".toList ⟨2025, 2, 1⟩], []) ↔
      CommentSafe (writeWords (entryWords quotedTest quotedSig.pairs))
        (some "flaky since 1.2".toList) :=
  entry_read_back_iff quotedSig_fit (List.Perm.refl _)
    (fun c hc => by rw [← Option.some.inj hc]; decide)

/-- The '#' of the signature starts a comment for `stripComment`, and the line that is left has
no closing quote. -/
theorem quotedSig_unparseable :
    quotedSig.Fit quotedTest "example.com/m".toList "TestX".toList ⟨2025, 2, 1⟩ ∧
      parseRegistry (writeEntry quotedTest quotedSig.pairs none) =
        ([], [atLine 1 [.s "unparseable (", .s "no closing quotation", .s ")"]]) :=
  ⟨quotedSig_fit, by decide⟩

end Written

end K3smApis.Quarantine
