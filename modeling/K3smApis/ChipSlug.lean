import K3smApis.DnsName
import K3smApis.Utf8
import Mathlib.Data.List.SplitBy

/-!
# Chip slugs

`ChipSlug` of `runtime/v1/labels.go`: one pass that holds a dash back until a letter or a
digit follows it, and a cut. It is the composition its comment documents, for any Unicode
table of lower-case letters.
-/
namespace K3smApis.Runtime
open Ascii Utf8 DnsName

def maxLabelValueLen : ℕ := 63

/-- `unicode.ToLower`: a table of which only the ASCII part is fixed here. -/
structure LowerCase where
  lower : Char → Char
  ascii : ∀ c : Char, c.toNat < 0x80 → lower c = c.toLower

/-- `strings.ToLower`, by its runes. -/
def toLower (u : LowerCase) (raw : GoString) : Text := (runes raw).map u.lower

def slugRune (r : Char) : Bool := ('a' ≤ r && r ≤ 'z') || ('0' ≤ r && r ≤ '9')

/-- The builder and the dash held back. -/
structure SlugState where
  out : GoString := []
  pendingDash : Bool := false
  deriving DecidableEq, Repr

/-- The dash that is written before the next letter. -/
def SlugState.held (s : SlugState) : GoString := if s.pendingDash then [dash] else []

def slugStep (s : SlugState) (r : Char) : SlugState :=
  if slugRune r then ⟨s.out ++ s.held ++ Json.encodeRune r.toNat, false⟩
  else if 0 < s.out.length then { s with pendingDash := true }
  else s

/-- `strings.TrimRight(s, "-")`. -/
def trimRight (s : GoString) : GoString := s.rdropWhile (· = dash)

/-- `strings.TrimLeft(s, "-")`. -/
def trimLeft (s : GoString) : GoString := s.dropWhile (· = dash)

def chipSlug (u : LowerCase) (raw : GoString) : GoString :=
  let s := ((toLower u raw).foldl slugStep {}).out
  if maxLabelValueLen < s.length then trimRight (s.take maxLabelValueLen) else s

/-- The maximal runs of runes that are all in the class or all outside it. -/
def runsOf (t : Text) : List Text := t.splitBy (fun a b => slugRune a = slugRune b)

/-- A run inside the class as it is, one outside as a dash. -/
def replaceRun (run : Text) : GoString :=
  if run.all slugRune then run.flatMap (fun r => Json.encodeRune r.toNat) else [dash]

/-- Every run outside the class replaced by one dash. -/
def replaceRuns (t : Text) : GoString := (runsOf t).flatMap replaceRun

/-- The four steps of the comment of `ChipSlug`. -/
def documentedSlug (u : LowerCase) (raw : GoString) : GoString :=
  trimRight ((trimRight (trimLeft (replaceRuns (toLower u raw)))).take maxLabelValueLen)

theorem slugRune_iff {r : Char} :
    slugRune r = true ↔ (97 ≤ r.toNat ∧ r.toNat ≤ 122) ∨ (48 ≤ r.toNat ∧ r.toNat ≤ 57) := by
  simp only [slugRune, Bool.or_eq_true, Bool.and_eq_true, decide_eq_true_eq]
  rfl

theorem encodeRune_slug {r : Char} (h : slugRune r = true) :
    ∃ b ∈ alnum, Json.encodeRune r.toNat = [b] := by
  have hall : ∀ n < 123, (97 ≤ n ∧ n ≤ 122) ∨ (48 ≤ n ∧ n ≤ 57) →
      UInt8.ofNat n ∈ alnum ∧ Json.encodeRune n = [UInt8.ofNat n] := by decide +kernel
  have hrange := slugRune_iff.mp h
  obtain ⟨hmem, hcode⟩ := hall r.toNat (by omega) hrange
  exact ⟨_, hmem, hcode⟩

/-- A byte of the class, read as a rune and put in lower case, is written as itself. -/
theorem slugRune_lower (u : LowerCase) {b : UInt8} (h : b ∈ alnum) :
    slugRune (u.lower (Char.ofNat b.toNat)) = true ∧
      Json.encodeRune (u.lower (Char.ofNat b.toNat)).toNat = [b] := by
  have hall : alnum.all (fun b => (Char.ofNat b.toNat).toNat < 0x80 ∧
      slugRune (Char.ofNat b.toNat).toLower ∧
      Json.encodeRune (Char.ofNat b.toNat).toLower.toNat = [b]) = true := by decide +kernel
  obtain ⟨hascii, hrune, hcode⟩ := of_decide_eq_true (List.all_eq_true.mp hall b h)
  rw [u.ascii _ hascii]
  exact ⟨hrune, hcode⟩

theorem slugRune_lower_dash (u : LowerCase) :
    slugRune (u.lower (Char.ofNat dash.toNat)) = false := by
  rw [u.ascii _ (by decide)]
  decide

theorem alnum_ne_dash {b : UInt8} (h : b ∈ alnum) : b ≠ dash := by
  rintro rfl
  exact absurd h (by decide)

theorem slugStep_in {s : SlugState} {r : Char} (h : slugRune r = true) :
    slugStep s r = ⟨s.out ++ s.held ++ Json.encodeRune r.toNat, false⟩ := if_pos h

theorem foldl_run_in {s : SlugState} {run : Text} (hne : run ≠ [])
    (h : ∀ r ∈ run, slugRune r = true) :
    run.foldl slugStep s =
      ⟨s.out ++ s.held ++ run.flatMap (fun r => Json.encodeRune r.toNat), false⟩ := by
  induction run generalizing s with
  | nil => exact absurd rfl hne
  | cons r run ih =>
    obtain ⟨hr, hrun⟩ := List.forall_mem_cons.mp h
    rw [List.foldl_cons, slugStep_in hr]
    by_cases hnil : run = []
    · subst hnil
      simp
    · rw [ih hnil hrun, List.flatMap_cons]
      simp [SlugState.held]

theorem foldl_run_out {s : SlugState} {run : Text} (hne : run ≠ [])
    (h : ∀ r ∈ run, slugRune r = false) :
    run.foldl slugStep s = if s.out = [] then s else { s with pendingDash := true } := by
  have hstep : ∀ (s : SlugState) (r : Char), slugRune r = false →
      slugStep s r = if s.out = [] then s else { s with pendingDash := true } := by
    intro s r hr
    rw [slugStep, if_neg (by simp [hr])]
    by_cases hout : s.out = []
    · rw [if_pos hout, if_neg (by simp [hout])]
    · rw [if_neg hout, if_pos (List.length_pos_iff.mpr hout)]
  induction run generalizing s with
  | nil => exact absurd rfl hne
  | cons r run ih =>
    obtain ⟨hr, hrun⟩ := List.forall_mem_cons.mp h
    rw [List.foldl_cons, hstep s r hr]
    by_cases hnil : run = []
    · subst hnil
      rfl
    · rw [ih hnil hrun]
      by_cases hout : s.out = []
      · simp only [if_pos hout]
      · simp only [if_neg hout]

/-- Runs as a text is cut into: in or outside the class, and no two outside side by side. -/
structure Runs (rs : List Text) : Prop where
  run : ∀ g ∈ rs, g ≠ [] ∧ ((∀ r ∈ g, slugRune r = true) ∨ ∀ r ∈ g, slugRune r = false)
  apart : rs.IsChain (fun g g' => (∀ r ∈ g, slugRune r = false) → ∀ r ∈ g', slugRune r = true)

theorem Runs.tail {g : Text} {rs : List Text} (h : Runs (g :: rs)) : Runs rs :=
  ⟨fun g' hg' => h.run g' (List.mem_cons_of_mem _ hg'), h.apart.tail⟩

/-- The neighbours of a chain of runes in one class are all in that class. -/
theorem sameClass {g : Text} (h : g.IsChain (fun a b => decide (slugRune a = slugRune b) = true)) :
    (∀ r ∈ g, slugRune r = true) ∨ ∀ r ∈ g, slugRune r = false := by
  induction g with
  | nil => exact .inl (by simp)
  | cons a g ih =>
    have htail := ih h.tail
    cases g with
    | nil => cases hslug : slugRune a <;> simp [hslug]
    | cons b g =>
      have hab : slugRune a = slugRune b := by simpa using (List.isChain_cons_cons.mp h).1
      rcases htail with htail | htail
      · exact .inl (List.forall_mem_cons.mpr ⟨hab.trans (htail b (by simp)), htail⟩)
      · exact .inr (List.forall_mem_cons.mpr ⟨hab.trans (htail b (by simp)), htail⟩)

theorem runs_runsOf (t : Text) : Runs (runsOf t) := by
  have hclass : ∀ g ∈ runsOf t, g ≠ [] ∧
      ((∀ r ∈ g, slugRune r = true) ∨ ∀ r ∈ g, slugRune r = false) := fun g hg =>
    ⟨List.ne_nil_of_mem_splitBy hg, sameClass (List.isChain_of_mem_splitBy hg)⟩
  refine ⟨hclass, ?_⟩
  have hapart := List.isChain_getLast_head_splitBy (fun a b => decide (slugRune a = slugRune b)) t
  refine hapart.imp_of_mem_imp fun g g' hg hg' ⟨hne, hne', hdiffer⟩ hout => ?_
  -- the run before ends outside the class, so this one starts in it
  have hstart : slugRune (g'.head hne') = true := by
    simpa [hout _ (List.getLast_mem hne)] using hdiffer
  rcases (hclass g' hg').2 with hin | hin
  · exact hin
  · exact absurd (hin _ (List.head_mem hne')) (by simp [hstart])

theorem flatten_runsOf (t : Text) : (runsOf t).flatten = t := List.flatten_splitBy _ t

theorem replaceRun_in {g : Text} (h : ∀ r ∈ g, slugRune r = true) :
    replaceRun g = g.flatMap (fun r => Json.encodeRune r.toNat) :=
  if_pos (List.all_eq_true.mpr h)

theorem replaceRun_out {g : Text} (hne : g ≠ []) (h : ∀ r ∈ g, slugRune r = false) :
    replaceRun g = [dash] := by
  obtain ⟨r, g, rfl⟩ := List.exists_cons_of_ne_nil hne
  exact if_neg (by simp [h r (List.mem_cons_self ..)])

/-- The bytes of a run in the class. -/
theorem replaceRun_bytes {g : Text} (hne : g ≠ []) (h : ∀ r ∈ g, slugRune r = true) :
    replaceRun g ≠ [] ∧ ∀ b ∈ replaceRun g, b ∈ alnum := by
  rw [replaceRun_in h]
  constructor
  · obtain ⟨r, g, rfl⟩ := List.exists_cons_of_ne_nil hne
    obtain ⟨b, -, hcode⟩ := encodeRune_slug (h r (List.mem_cons_self ..))
    rw [List.flatMap_cons, hcode]
    exact List.cons_ne_nil _ _
  · intro b hb
    obtain ⟨r, hr, hbr⟩ := List.mem_flatMap.mp hb
    obtain ⟨c, hc, hcode⟩ := encodeRune_slug (h r hr)
    rw [hcode] at hbr
    exact List.mem_singleton.mp hbr ▸ hc

/-- Trimming stops at a letter or a digit. -/
theorem trimRight_append {a b : GoString} (h : ∀ x ∈ a.getLast?, x ≠ dash) :
    trimRight (a ++ b) = a ++ trimRight b := by
  induction b using List.reverseRecOn with
  | nil =>
    rw [List.append_nil, trimRight, trimRight, List.rdropWhile_nil, List.append_nil,
      List.rdropWhile_eq_self_iff]
    intro hne
    simpa using h _ (List.getLast?_eq_some_getLast hne)
  | append_singleton b x ih =>
    rw [← List.append_assoc, trimRight, trimRight]
    by_cases hx : x = dash
    · rw [List.rdropWhile_concat_pos _ _ _ (by simpa using hx),
        List.rdropWhile_concat_pos _ _ _ (by simpa using hx)]
      exact ih
    · rw [List.rdropWhile_concat_neg _ _ _ (by simpa using hx),
        List.rdropWhile_concat_neg _ _ _ (by simpa using hx), List.append_assoc]

theorem trimRight_append_alnum {a b : GoString} (hne : b ≠ []) (hb : ∀ x ∈ b, x ∈ alnum)
    (c : GoString) : trimRight (a ++ b ++ c) = a ++ b ++ trimRight c := by
  refine trimRight_append fun x hx => alnum_ne_dash (hb x ?_)
  rw [List.getLast?_append_of_ne_nil _ hne] at hx
  exact List.mem_of_getLast? hx

/-- Once something is written, the pass writes what replacing and trimming on the right
leave. -/
theorem foldl_runs {rs : List Text} (hrs : Runs rs) {s : SlugState} (hs : s.out ≠ [])
    (hheld : s.pendingDash = true → ∀ g ∈ rs.head?, ∀ r ∈ g, slugRune r = true) :
    (rs.flatten.foldl slugStep s).out = s.out ++ trimRight (s.held ++ rs.flatMap replaceRun) := by
  induction rs generalizing s with
  | nil =>
    cases hp : s.pendingDash <;> simp [SlugState.held, hp, trimRight]
  | cons g rs ih =>
    obtain ⟨hne, hclass⟩ := hrs.run g (List.mem_cons_self ..)
    rw [List.flatten_cons, List.foldl_append, List.flatMap_cons]
    rcases hclass with hin | hout
    · obtain ⟨hbne, hbytes⟩ := replaceRun_bytes hne hin
      rw [foldl_run_in hne hin, ih hrs.tail (by simp [← replaceRun_in hin, hbne]) (by simp),
        ← List.append_assoc s.held, trimRight_append_alnum hbne hbytes, ← replaceRun_in hin]
      simp [SlugState.held]
    · have hnone : s.pendingDash = false := by
        by_contra hp
        obtain ⟨r, g, rfl⟩ := List.exists_cons_of_ne_nil hne
        have hslug := hheld (by simpa using hp) _ rfl r (List.mem_cons_self ..)
        simp [hout r (List.mem_cons_self ..)] at hslug
      have hnext : ∀ g' ∈ rs.head?, ∀ r ∈ g', slugRune r = true := fun g' hg' =>
        (List.isChain_cons.mp hrs.apart).1 g' hg' hout
      have hrest := ih hrs.tail (s := ⟨s.out, true⟩) hs (fun _ => hnext)
      rw [foldl_run_out hne hout, if_neg hs, hrest, replaceRun_out hne hout]
      simp [SlugState.held, hnone]

/-- From an empty builder the dash before the first letter is not written. -/
theorem foldl_runs_start {rs : List Text} (hrs : Runs rs) :
    (rs.flatten.foldl slugStep {}).out = trimRight (trimLeft (rs.flatMap replaceRun)) := by
  have hin : ∀ g rs', Runs (g :: rs') → (∀ r ∈ g, slugRune r = true) →
      ((g :: rs').flatten.foldl slugStep {}).out =
        trimRight (trimLeft ((g :: rs').flatMap replaceRun)) := by
    intro g rs' hrs hg
    obtain ⟨hbne, hbytes⟩ := replaceRun_bytes (hrs.run g (List.mem_cons_self ..)).1 hg
    have hleft : ∀ c, trimLeft (replaceRun g ++ c) = replaceRun g ++ c := by
      intro c
      obtain ⟨b, bs, hcons⟩ := List.exists_cons_of_ne_nil hbne
      have hb : b ≠ dash := alnum_ne_dash (hbytes b (hcons ▸ List.mem_cons_self ..))
      rw [hcons, List.cons_append, trimLeft, List.dropWhile_cons_of_neg (by simpa using hb)]
    have hright := trimRight_append_alnum (a := []) hbne hbytes (rs'.flatMap replaceRun)
    rw [List.flatten_cons, List.foldl_append, foldl_run_in (hrs.run g (List.mem_cons_self ..)).1 hg,
      foldl_runs hrs.tail (by simpa [SlugState.held, ← replaceRun_in hg] using hbne) (by simp),
      List.flatMap_cons, hleft, ← List.nil_append (replaceRun g), hright, ← replaceRun_in hg]
    simp [SlugState.held]
  cases rs with
  | nil => rfl
  | cons g rs =>
    obtain ⟨hne, hclass⟩ := hrs.run g (List.mem_cons_self ..)
    rcases hclass with hg | hout
    · exact hin g rs hrs hg
    · rw [List.flatten_cons, List.foldl_append, foldl_run_out hne hout, if_pos rfl,
        List.flatMap_cons, replaceRun_out hne hout]
      have hdash : ∀ c, trimLeft ([dash] ++ c) = trimLeft c := fun c => rfl
      rw [hdash]
      cases rs with
      | nil => rfl
      | cons g' rs =>
        exact hin g' rs hrs.tail ((List.isChain_cons.mp hrs.apart).1 g' rfl hout)

/-- Words of letters and digits with single dashes between them. -/
structure SlugShape (v : GoString) : Prop where
  bytes : ∀ b ∈ v, b ∈ dashAlnum
  first : ∀ b ∈ v.head?, b ∈ alnum
  last : ∀ b ∈ v.getLast?, b ∈ alnum
  single : v.IsChain (fun a b => a = dash → b ≠ dash)

theorem slugShape_nil : SlugShape [] := ⟨by simp, by simp, by simp, List.isChain_nil⟩

theorem SlugShape.ascii {v : GoString} (h : SlugShape v) : ∀ b ∈ v, b < 0x80 := by
  have hall : dashAlnum.all (fun b => b < 0x80) = true := by decide
  exact fun b hb => by simpa using List.all_eq_true.mp hall b (h.bytes b hb)

theorem mem_alnum_or_dash {b : UInt8} (h : b ∈ dashAlnum) : b = dash ∨ b ∈ alnum := by
  rcases List.mem_append.mp h with h | h
  · have hdash : lit "-" = [dash] := by decide
    exact .inl (List.mem_singleton.mp (hdash ▸ h))
  · exact .inr h

/-- A letter or digit after the words, behind a dash that may be held back. -/
theorem SlugShape.snoc {v : GoString} (h : SlugShape v) {held : Bool} (hheld : held = true → v ≠ [])
    {b : UInt8} (hb : b ∈ alnum) : SlugShape (v ++ (if held then [dash] else []) ++ [b]) := by
  have hlast : ∀ x ∈ v.getLast?, x ≠ dash := fun x hx => alnum_ne_dash (h.last x hx)
  refine ⟨?_, ?_, ?_, ?_⟩
  · intro x hx
    simp only [List.mem_append, List.mem_singleton] at hx
    rcases hx with (hx | hx) | rfl
    · exact h.bytes x hx
    · cases held with
      | false => simp at hx
      | true => exact List.mem_singleton.mp hx ▸ (by decide : dash ∈ dashAlnum)
    · exact alnum_subset hb
  · cases v with
    | nil =>
      cases held with
      | false => simpa using hb
      | true => exact absurd rfl (hheld rfl)
    | cons a v => exact h.first
  · rw [List.getLast?_concat]
    simpa using hb
  · cases held with
    | false =>
      rw [if_neg (by simp), List.append_nil, List.isChain_append]
      exact ⟨h.single, List.isChain_singleton _, fun x hx y hy hdash => absurd hdash (hlast x hx)⟩
    | true =>
      rw [if_pos rfl, List.append_assoc, List.isChain_append]
      refine ⟨h.single, ?_, fun x hx y hy hdash => absurd hdash (hlast x hx)⟩
      simpa using alnum_ne_dash hb

/-- What the pass keeps: the builder has the shape of a slug, and a dash is held back only
behind something. -/
def SlugState.Valid (s : SlugState) : Prop :=
  SlugShape s.out ∧ (s.pendingDash = true → s.out ≠ [])

theorem slugStep_valid {s : SlugState} (h : s.Valid) (r : Char) : (slugStep s r).Valid := by
  unfold slugStep
  split_ifs with hr hout
  · obtain ⟨b, hb, hcode⟩ := encodeRune_slug hr
    rw [hcode]
    exact ⟨h.1.snoc h.2 hb, by simp⟩
  · exact ⟨h.1, fun _ => List.length_pos_iff.mp hout⟩
  · exact h

theorem foldl_slugStep_valid (t : Text) {s : SlugState} (h : s.Valid) :
    (t.foldl slugStep s).Valid := by
  induction t generalizing s with
  | nil => exact h
  | cons r t ih => exact ih (slugStep_valid h r)

/-- A cut keeps the shape once the dash it may end in is gone. -/
theorem SlugShape.cut {v : GoString} (h : SlugShape v) (n : ℕ) :
    SlugShape (trimRight (v.take n)) := by
  have hpre : trimRight (v.take n) <+: v :=
    (List.rdropWhile_prefix _ _).trans (List.take_prefix n v)
  refine ⟨fun b hb => h.bytes b (hpre.subset hb), fun b hb => ?_, fun b hb => ?_,
    List.IsChain.infix h.single hpre.isInfix⟩
  · refine h.first b ?_
    obtain ⟨rest, hrest⟩ := hpre
    rw [← hrest, List.head?_append, Option.mem_def.mp hb]
    rfl
  · have hne : trimRight (v.take n) ≠ [] := by
      intro hnil
      simp [hnil] at hb
    have hdash : (trimRight (v.take n)).getLast hne ≠ dash := by
      have hnot := List.rdropWhile_last_not (fun x => decide (x = dash)) (v.take n) hne
      exact fun heq => hnot (decide_eq_true heq)
    obtain rfl : (trimRight (v.take n)).getLast hne = b := by
      rw [List.getLast?_eq_some_getLast hne] at hb
      exact Option.some.inj hb
    rcases mem_alnum_or_dash (h.bytes _ (hpre.subset (List.getLast_mem hne))) with heq | hmem
    · exact absurd heq hdash
    · exact hmem

theorem SlugShape.trimRight_eq {v : GoString} (h : SlugShape v) : trimRight v = v := by
  have htrim := trimRight_append (a := v) (b := []) fun x hx => alnum_ne_dash (h.last x hx)
  simpa [trimRight] using htrim

theorem slug_shape (u : LowerCase) (raw : GoString) :
    SlugShape ((toLower u raw).foldl slugStep {}).out :=
  (foldl_slugStep_valid _ ⟨slugShape_nil, by simp⟩).1

theorem chipSlug_shape (u : LowerCase) (raw : GoString) :
    SlugShape (chipSlug u raw) ∧ (chipSlug u raw).length ≤ maxLabelValueLen := by
  have h := slug_shape u raw
  unfold chipSlug
  dsimp only
  split_ifs with hlong
  · exact ⟨h.cut _, ((List.rdropWhile_prefix _ _).length_le).trans (List.length_take_le _ _)⟩
  · exact ⟨h, not_lt.mp hlong⟩

/-- One byte of a slug: what is written and held back is what was read. -/
theorem slugStep_read (u : LowerCase) {s : SlugState} {p : GoString} {b : UInt8}
    (hread : s.out ++ s.held = p) (hb : b ∈ dashAlnum) (hfirst : p = [] → b ∈ alnum)
    (hsingle : p.getLast? = some dash → b ≠ dash) :
    (slugStep s (u.lower (Char.ofNat b.toNat))).out ++
      (slugStep s (u.lower (Char.ofNat b.toNat))).held = p ++ [b] := by
  rcases mem_alnum_or_dash hb with rfl | hb
  · have hne : p ≠ [] := fun hnil => absurd (hfirst hnil) (by decide)
    have hnone : s.pendingDash = false := by
      by_contra hp
      refine hsingle ?_ rfl
      rw [← hread, SlugState.held, if_pos (by simpa using hp), List.getLast?_concat]
    rw [SlugState.held, hnone] at hread
    have hout : s.out = p := by simpa using hread
    rw [slugStep, if_neg (by simp [slugRune_lower_dash]),
      if_pos (List.length_pos_iff.mpr (hout ▸ hne)), ← hout]
    rfl
  · obtain ⟨hrune, hcode⟩ := slugRune_lower u hb
    rw [slugStep_in hrune, hcode, hread]
    exact List.append_nil _

theorem foldl_slug_read (u : LowerCase) {v p : GoString} (h : SlugShape v) (hp : p <+: v) :
    ((p.map (fun b => u.lower (Char.ofNat b.toNat))).foldl slugStep {}).out ++
      ((p.map (fun b => u.lower (Char.ofNat b.toNat))).foldl slugStep {}).held = p := by
  induction p using List.reverseRecOn with
  | nil => rfl
  | append_singleton p b ih =>
    have hpart := List.IsChain.infix h.single hp.isInfix
    have hsingle := (List.isChain_append.mp hpart).2.2
    rw [List.map_append, List.foldl_append]
    refine slugStep_read u (ih ((List.prefix_append p [b]).trans hp))
      (h.bytes b (hp.subset (by simp))) (fun hnil => h.first b ?_)
      (fun hlast => hsingle dash hlast b rfl rfl)
    obtain ⟨rest, hrest⟩ := hp
    rw [← hrest, hnil]
    rfl

/-- A slug is its own slug. -/
theorem chipSlug_of_shape (u : LowerCase) {v : GoString} (h : SlugShape v)
    (hlen : v.length ≤ maxLabelValueLen) : chipSlug u v = v := by
  have hread := foldl_slug_read u h (List.prefix_refl v)
  have hnone : ((v.map (fun b => u.lower (Char.ofNat b.toNat))).foldl slugStep {}).pendingDash =
      false := by
    by_contra hp
    refine alnum_ne_dash (h.last dash ?_) rfl
    nth_rewrite 1 [← hread]
    rw [SlugState.held, if_pos (by simpa using hp), List.getLast?_concat]
    rfl
  rw [SlugState.held, hnone] at hread
  have hout : ((toLower u v).foldl slugStep {}).out = v := by
    rw [toLower, runes_of_ascii h.ascii, List.map_map]
    exact (List.append_nil _).symm.trans hread
  unfold chipSlug
  dsimp only
  rw [hout, if_neg (not_lt.mpr hlen)]

def labelAlnum : GoString := lit "ABCDEFGHIJKLMNOPQRSTUVWXYZ" ++ alnum

/-- A Kubernetes label value: empty, or letters, digits, '-', '_' and '.' with a letter or
digit at both ends. -/
structure IsLabelValue (v : GoString) : Prop where
  length : v.length ≤ 63
  bytes : ∀ b ∈ v, b ∈ lit "-_." ++ labelAlnum
  first : ∀ b ∈ v.head?, b ∈ labelAlnum
  last : ∀ b ∈ v.getLast?, b ∈ labelAlnum

theorem SlugShape.isLabelValue {v : GoString} (h : SlugShape v) (hlen : v.length ≤ 63) :
    IsLabelValue v := by
  have hin : ∀ {b}, b ∈ alnum → b ∈ labelAlnum := fun hb => List.mem_append_right _ hb
  refine ⟨hlen, fun b hb => ?_, fun b hb => hin (h.first b hb), fun b hb => hin (h.last b hb)⟩
  rcases mem_alnum_or_dash (h.bytes b hb) with rfl | hb
  · exact List.mem_append_left _ (by decide)
  · exact List.mem_append_right _ (hin hb)

/-- The slug of a chip is the documented composition: lower case, a dash for every run
outside the class, no dash at either end, a cut and no dash where it cuts. It is a label
value without two dashes side by side, and a slug is its own slug. -/
theorem chipSlug_documented (u : LowerCase) (raw : GoString) :
    chipSlug u raw = documentedSlug u raw ∧ IsLabelValue (chipSlug u raw) ∧
      ¬[dash, dash] <:+: chipSlug u raw ∧
      chipSlug u (chipSlug u raw) = chipSlug u raw := by
  obtain ⟨hshape, hlen⟩ := chipSlug_shape u raw
  refine ⟨?_, hshape.isLabelValue hlen, fun hinfix => ?_, chipSlug_of_shape u hshape hlen⟩
  · have hpass := foldl_runs_start (runs_runsOf (toLower u raw))
    rw [flatten_runsOf] at hpass
    have hslug := slug_shape u raw
    unfold documentedSlug chipSlug replaceRuns
    dsimp only
    rw [← hpass]
    split_ifs with hlong
    · rfl
    · rw [List.take_of_length_le (not_lt.mp hlong), hslug.trimRight_eq]
  · have hpair := List.IsChain.infix hshape.single hinfix
    simp at hpair

/-- A table with one letter outside ASCII: the Kelvin sign is lowered to a letter inside. -/
def kelvinLowerCase : LowerCase where
  lower c := if c = Char.ofNat 0x212a then 'k' else c.toLower
  ascii c hc := by
    refine if_neg fun heq => ?_
    rw [heq] at hc
    exact absurd hc (by decide)

theorem chipSlug_documented_kelvin :
    documentedSlug kelvinLowerCase (lit "  Apple M4 (\u212a9)") = lit "apple-m4-k9" ∧
      chipSlug kelvinLowerCase (lit "apple-m4-k9") = lit "apple-m4-k9" := by
  have hslug : chipSlug kelvinLowerCase (lit "  Apple M4 (\u212a9)") = lit "apple-m4-k9" := by
    decide +kernel
  obtain ⟨hdocumented, -, -, hagain⟩ :=
    chipSlug_documented kelvinLowerCase (lit "  Apple M4 (\u212a9)")
  rw [hslug] at hdocumented hagain
  exact ⟨hdocumented.symm, hagain⟩

end K3smApis.Runtime
