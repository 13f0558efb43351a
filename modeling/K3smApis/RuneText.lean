import K3smApis.GoText
import Mathlib.Data.List.DropRight
import Mathlib.Data.List.Infix

/-!
# Texts as runes

The part of Go's `strings` and `regexp` that works on runes: the regexp class `\s`,
`strings.TrimSpace`, and a run of blanks replaced by one space. A text is the runes
a Go string decodes to, with U+FFFD for bytes that are not UTF-8.
-/
namespace K3smApis

/-- A Go string by its runes. -/
abbrev Text := List Char

instance Text.lawfulBEq : LawfulBEq Text := inferInstance

/-- A start of `a ++ b` stops inside `a` or goes on into `b`. -/
theorem prefix_append_cases {α : Type*} {l a b : List α} (h : l <+: a ++ b) :
    l <+: a ∨ ∃ r, l = a ++ r ∧ r <+: b := by
  rcases List.prefix_or_prefix_of_prefix h (List.prefix_append a b) with hl | ⟨r, rfl⟩
  · exact .inl hl
  · exact .inr ⟨r, rfl, (List.prefix_append_right_inj a).mp h⟩

theorem rdropWhile_append_cons {α : Type*} {p : α → Bool} {c : α} (hc : p c = false)
    (a t : List α) : (a ++ c :: t).rdropWhile p = a ++ c :: t.rdropWhile p := by
  induction t using List.reverseRecOn with
  | nil => rw [List.rdropWhile_concat_neg _ _ _ (by simp [hc]), List.rdropWhile_nil]
  | append_singleton t d ih =>
    rw [← List.cons_append, ← List.append_assoc]
    by_cases hd : p d = true
    · rw [List.rdropWhile_concat_pos _ _ _ hd, List.rdropWhile_concat_pos _ _ _ hd, ih]
    · rw [List.rdropWhile_concat_neg _ _ _ hd, List.rdropWhile_concat_neg _ _ _ hd,
        List.append_assoc, List.cons_append]

/-- A digit is the printed form of its value. -/
theorem exists_digitChar {c : Char} (h : c.isDigit = true) : ∃ d < 10, d.digitChar = c := by
  obtain ⟨hlo, hhi⟩ : 48 ≤ c.toNat ∧ c.toNat ≤ 57 := by simpa [Char.isDigit_iff_toNat] using h
  refine ⟨c.toNat - 48, by omega, ?_⟩
  rw [← Char.toNat_inj]
  interval_cases c.toNat <;> rfl

/-- A printed number does not start with a zero unless it is zero. -/
theorem toDigits_head?_ne_zero {n : ℕ} (h : 0 < n) : (Nat.toDigits 10 n).head? ≠ some '0' := by
  induction n using Nat.strongRecOn with
  | ind n ih =>
    by_cases hn : n < 10
    · rw [Nat.toDigits_of_lt_base hn]
      interval_cases n <;> decide
    · rw [Nat.toDigits_of_base_le (by omega) (by omega),
        List.head?_append_of_ne_nil _ Nat.toDigits_ne_nil]
      exact ih (n / 10) (by omega) (by omega)

namespace Text

/-- The bytes of a text. -/
def bytes (t : Text) : GoString := lit (String.ofList t)

/-- The regexp class `\s`. -/
def isBlank (c : Char) : Bool :=
  c = ' ' || c = '\t' || c = '\n' || c = '\r' || c = '\x0c'

/-- `unicode.IsSpace`. -/
def isSpace (c : Char) : Bool :=
  isBlank c || c.toNat ∈ [0x0b, 0x85, 0xa0, 0x1680, 0x2028, 0x2029, 0x202f, 0x205f, 0x3000] ||
    (0x2000 ≤ c.toNat && c.toNat ≤ 0x200a)

/-- `strings.TrimSpace`. -/
def trimSpace (t : Text) : Text := (t.dropWhile isSpace).rdropWhile isSpace

/-- `strings.Contains`. -/
def contains (t s : Text) : Bool := s <:+: t

/-- `strings.HasPrefix`. -/
def hasPrefix (t s : Text) : Bool := s <+: t

/-- `strings.Split(t, "\n")`. -/
def lines (t : Text) : List Text := t.splitOn '\n'

@[simp] theorem contains_iff {t s : Text} : t.contains s = true ↔ s <:+: t := by
  simp [contains]

@[simp] theorem hasPrefix_iff {t s : Text} : t.hasPrefix s = true ↔ s <+: t := by
  simp [hasPrefix]

theorem isSpace_of_isBlank {c : Char} (h : isBlank c = true) : isSpace c = true := by
  simp [isSpace, h]

theorem trimSpace_isInfix (t : Text) : t.trimSpace <:+: t :=
  (List.rdropWhile_prefix _ _).isInfix.trans (List.dropWhile_suffix _).isInfix

theorem trimSpace_eq_nil {t : Text} : t.trimSpace = [] ↔ ∀ c ∈ t, isSpace c = true := by
  rw [trimSpace, List.rdropWhile_eq_nil_iff]
  constructor
  · intro h
    -- what is left after the leading spaces starts with a rune that is none
    cases hd : t.dropWhile isSpace with
    | nil => exact List.dropWhile_eq_nil_iff.mp hd
    | cons c r =>
      have hc : isSpace c = true := h c (by rw [hd]; exact List.mem_cons_self)
      have hne : t.dropWhile isSpace ≠ [] := by simp [hd]
      have hnot := List.head_dropWhile_not isSpace hne
      simp [hd, hc] at hnot
  · intro h c hc
    exact h c ((List.dropWhile_suffix _).mem hc)

/-- The runs of blanks of a text as one space each; `inRun` says whether a blank was
written just before. -/
def collapseAfter : Bool → Text → Text
  | _, [] => []
  | inRun, c :: t =>
    if isBlank c then
      if inRun then collapseAfter true t else ' ' :: collapseAfter true t
    else c :: collapseAfter false t

/-- `regexp.MustCompile("\s+").ReplaceAllString(t, " ")`. -/
def collapse (t : Text) : Text := collapseAfter false t

/-- Whether a text read after `inRun` ends in a blank. -/
def endsBlank : Bool → Text → Bool
  | inRun, [] => inRun
  | _, c :: t => endsBlank (isBlank c) t

theorem collapseAfter_append (inRun : Bool) (s t : Text) :
    collapseAfter inRun (s ++ t) =
      collapseAfter inRun s ++ collapseAfter (endsBlank inRun s) t := by
  induction s generalizing inRun with
  | nil => rfl
  | cons c s ih =>
    by_cases hc : isBlank c = true
    · cases inRun <;> simp [collapseAfter, endsBlank, hc, ih]
    · simp [collapseAfter, endsBlank, hc, ih]

theorem collapseAfter_eq_self {inRun : Bool} {t : Text} (h : ∀ c ∈ t, isBlank c = false) :
    collapseAfter inRun t = t := by
  induction t generalizing inRun with
  | nil => rfl
  | cons c t ih =>
    have hc := h c List.mem_cons_self
    rw [collapseAfter, if_neg (by simp [hc]), ih (fun d hd => h d (List.mem_cons_of_mem c hd))]

/-- Collapsing drops blanks only. -/
theorem mem_collapseAfter {inRun : Bool} {t : Text} {c : Char} (hc : isBlank c = false)
    (h : c ∈ t) : c ∈ collapseAfter inRun t := by
  induction t generalizing inRun with
  | nil => exact absurd h List.not_mem_nil
  | cons d t ih =>
    rcases List.mem_cons.mp h with rfl | h
    · simp [collapseAfter, hc]
    · rw [collapseAfter]
      split_ifs
      · exact ih h
      · exact List.mem_cons_of_mem _ (ih h)
      · exact List.mem_cons_of_mem _ (ih h)

theorem endsBlank_append (inRun : Bool) (s t : Text) :
    endsBlank inRun (s ++ t) = endsBlank (endsBlank inRun s) t := by
  induction s generalizing inRun with
  | nil => rfl
  | cons c s ih => exact ih (isBlank c)

theorem endsBlank_eq_false {inRun : Bool} {t : Text} (hne : t ≠ [])
    (h : ∀ c ∈ t, isBlank c = false) : endsBlank inRun t = false := by
  induction t generalizing inRun with
  | nil => exact absurd rfl hne
  | cons c t ih =>
    rw [endsBlank, h c List.mem_cons_self]
    by_cases ht : t = []
    · rw [ht, endsBlank]
    · exact ih ht (fun d hd => h d (List.mem_cons_of_mem c hd))

/-- The collapsed form of a text that ends in a blank ends in a space. -/
theorem collapse_endsBlank {s : Text} (h : endsBlank false s = true) :
    ∃ r, collapse s = r ++ [' '] := by
  induction s using List.reverseRecOn with
  | nil => simp [endsBlank] at h
  | append_singleton s c ih =>
    rw [endsBlank_append] at h
    have hc : isBlank c = true := h
    rw [collapse, collapseAfter_append]
    cases hs : endsBlank false s with
    | false => exact ⟨collapse s, by simp [collapseAfter, collapse, hc]⟩
    | true =>
      obtain ⟨r, hr⟩ := ih hs
      exact ⟨r, by simpa [collapse, collapseAfter, hc] using hr⟩

theorem collapse_isSuffix (s : Text) : collapse s <:+ ' ' :: collapseAfter true s := by
  cases s with
  | nil => exact List.nil_suffix
  | cons c s =>
    by_cases hc : isBlank c = true
    · simp [collapse, collapseAfter, hc]
    · simp [collapse, collapseAfter, hc]

/-- A piece of a text collapses to a piece of the collapsed text, wherever it is cut. -/
theorem collapse_isInfix {s t : Text} (h : s <:+: t) : collapse s <:+: collapse t := by
  obtain ⟨p, q, rfl⟩ := h
  simp only [collapse, collapseAfter_append]
  cases hp : endsBlank false p with
  | false => exact List.infix_append _ _ _
  | true =>
    -- the blank before the piece and a blank at its start are one run
    obtain ⟨r, hr⟩ := collapse_endsBlank hp
    obtain ⟨u, hu⟩ := collapse_isSuffix s
    rw [collapse] at hr hu
    refine ⟨r ++ u, collapseAfter (endsBlank false (p ++ s)) q, ?_⟩
    rw [List.append_assoc r, hu, hr]
    simp

end Text

end K3smApis
