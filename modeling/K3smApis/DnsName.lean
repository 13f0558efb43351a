import K3smApis.GoText
import Mathlib.Computability.RegularExpressions

/-!
# DNS names

The regular expressions of RFC 1123 labels and of labels joined by dots, and the shapes
they match.
-/
namespace K3smApis.DnsName

/-- One byte out of a character class. -/
def oneOf (bytes : GoString) : RegularExpression UInt8 :=
  (bytes.map RegularExpression.char).foldr (· + ·) 0

/-- `[a-z0-9]` -/
def alnum : GoString := lit "abcdefghijklmnopqrstuvwxyz0123456789"

/-- `[-a-z0-9]` -/
def dashAlnum : GoString := lit "-" ++ alnum

/-- `[a-z0-9]([-a-z0-9]*[a-z0-9])?` -/
def label : RegularExpression UInt8 :=
  oneOf alnum * (1 + (oneOf dashAlnum).star * oneOf alnum)

/-- `L(\.L)*` with `L` a label. -/
def subdomain : RegularExpression UInt8 := label * (oneOf (lit ".") * label).star

theorem mem_oneOf {bytes v : GoString} : v ∈ (oneOf bytes).matches' ↔ ∃ b ∈ bytes, v = [b] := by
  induction bytes with
  | nil => simp [oneOf, RegularExpression.matches'_zero, Language.notMem_zero]
  | cons b bytes ih =>
    have hcons : oneOf (b :: bytes) = RegularExpression.char b + oneOf bytes := rfl
    rw [hcons, RegularExpression.matches'_add, Language.mem_add, ih, List.exists_mem_cons_iff]
    rfl

theorem mem_oneOf_star {bytes v : GoString} :
    v ∈ (oneOf bytes).star.matches' ↔ ∀ b ∈ v, b ∈ bytes := by
  rw [RegularExpression.matches'_star, Language.mem_kstar]
  constructor
  · rintro ⟨L, rfl, hL⟩ b hb
    obtain ⟨w, hw, hbw⟩ := List.mem_flatten.mp hb
    obtain ⟨c, hc, rfl⟩ := mem_oneOf.mp (hL w hw)
    exact List.mem_singleton.mp hbw ▸ hc
  · intro h
    refine ⟨v.map (fun b => [b]), by simp [← List.flatMap_def], ?_⟩
    intro w hw
    obtain ⟨b, hb, rfl⟩ := List.mem_map.mp hw
    exact mem_oneOf.mpr ⟨b, h b hb, rfl⟩

/-- The shape of a label: letters, digits and dashes, and no dash at either end. -/
structure IsLabel (v : GoString) : Prop where
  bytes : ∀ b ∈ v, b ∈ dashAlnum
  first : ∃ b ∈ alnum, v.head? = some b
  last : ∃ b ∈ alnum, v.getLast? = some b

theorem IsLabel.ne_nil {v : GoString} (h : IsLabel v) : v ≠ [] := by
  rintro rfl
  obtain ⟨b, -, hb⟩ := h.first
  cases hb

theorem alnum_subset {b : UInt8} (h : b ∈ alnum) : b ∈ dashAlnum := List.mem_append_right _ h

theorem mem_label {v : GoString} : v ∈ label.matches' ↔ IsLabel v := by
  rw [label, RegularExpression.matches'_mul, Language.mem_mul]
  constructor
  · rintro ⟨x, hx, y, hy, rfl⟩
    obtain ⟨a, ha, rfl⟩ := mem_oneOf.mp hx
    rw [RegularExpression.matches'_add, Language.mem_add, RegularExpression.matches'_mul,
      Language.mem_mul] at hy
    rcases hy with hy | ⟨m, hm, z, hz, rfl⟩
    · obtain rfl : y = [] := hy
      exact ⟨by simpa using alnum_subset ha, ⟨a, ha, rfl⟩, ⟨a, ha, rfl⟩⟩
    · obtain ⟨c, hc, rfl⟩ := mem_oneOf.mp hz
      refine ⟨fun b hb => ?_, ⟨a, ha, rfl⟩, ⟨c, hc, List.getLast?_concat (l := a :: m)⟩⟩
      simp only [List.singleton_append, List.mem_cons, List.mem_append, List.not_mem_nil,
        or_false] at hb
      rcases hb with rfl | hb | rfl
      · exact alnum_subset ha
      · exact mem_oneOf_star.mp hm b hb
      · exact alnum_subset hc
  · rintro ⟨hbytes, ⟨a, ha, hfirst⟩, ⟨c, hc, hlast⟩⟩
    obtain ⟨rest, rfl⟩ : ∃ rest, v = a :: rest := by
      cases v with
      | nil => cases hfirst
      | cons b v => exact ⟨v, by rw [Option.some.inj hfirst]⟩
    refine ⟨[a], mem_oneOf.mpr ⟨a, ha, rfl⟩, rest, ?_, rfl⟩
    rw [RegularExpression.matches'_add, Language.mem_add, RegularExpression.matches'_mul,
      Language.mem_mul]
    -- one byte, or a middle and a last byte
    rcases List.eq_nil_or_concat rest with rfl | ⟨m, d, rfl⟩
    · exact .inl rfl
    · obtain rfl : d = c := by
        rw [List.concat_eq_append, ← List.cons_append, List.getLast?_concat] at hlast
        exact Option.some.inj hlast
      refine .inr ⟨m, mem_oneOf_star.mpr fun b hb => hbytes b (by simp [hb]), [d],
        mem_oneOf.mpr ⟨d, hc, rfl⟩, by simp⟩

/-- Labels joined by dots. -/
def IsSubdomain (v : GoString) : Prop :=
  ∃ ls : List GoString, ls ≠ [] ∧ (∀ l ∈ ls, IsLabel l) ∧ v = (lit ".").intercalate ls

theorem intercalate_eq_flatten (l : GoString) (ls : List GoString) :
    (lit ".").intercalate (l :: ls) = l ++ (ls.map (fun m => lit "." ++ m)).flatten := by
  induction ls generalizing l with
  | nil => simp
  | cons m ls ih =>
    rw [List.intercalate_cons_cons, ih, List.map_cons, List.flatten_cons, List.append_assoc]
    simp

theorem mem_subdomain {v : GoString} : v ∈ subdomain.matches' ↔ IsSubdomain v := by
  have hdotted : ∀ w, w ∈ (oneOf (lit ".") * label).matches' ↔
      ∃ l, IsLabel l ∧ w = lit "." ++ l := by
    intro w
    rw [RegularExpression.matches'_mul, Language.mem_mul]
    constructor
    · rintro ⟨x, hx, l, hl, rfl⟩
      obtain ⟨b, hb, rfl⟩ := mem_oneOf.mp hx
      have hdot : [b] = lit "." := by
        have hlit : lit "." = [0x2e] := by decide
        rw [hlit] at hb ⊢
        rw [List.mem_singleton.mp hb]
      exact ⟨l, mem_label.mp hl, by rw [hdot]⟩
    · rintro ⟨l, hl, rfl⟩
      exact ⟨lit ".", mem_oneOf.mpr ⟨0x2e, by decide, by decide⟩, l, mem_label.mpr hl, rfl⟩
  rw [subdomain, RegularExpression.matches'_mul, Language.mem_mul]
  constructor
  · rintro ⟨l, hl, y, hy, rfl⟩
    rw [RegularExpression.matches'_star, Language.mem_kstar] at hy
    obtain ⟨L, rfl, hL⟩ := hy
    -- the label behind each dot
    have hlabels : ∃ ls : List GoString,
        (∀ m ∈ ls, IsLabel m) ∧ L = ls.map (fun m => lit "." ++ m) := by
      clear hl
      induction L with
      | nil => exact ⟨[], by simp, rfl⟩
      | cons w L ih =>
        obtain ⟨m, hm, rfl⟩ := (hdotted w).mp (hL w (List.mem_cons_self ..))
        obtain ⟨ls, hls, rfl⟩ := ih fun y hy => hL y (List.mem_cons_of_mem _ hy)
        exact ⟨m :: ls, List.forall_mem_cons.mpr ⟨hm, hls⟩, rfl⟩
    obtain ⟨ls, hls, rfl⟩ := hlabels
    exact ⟨l :: ls, by simp, List.forall_mem_cons.mpr ⟨mem_label.mp hl, hls⟩,
      (intercalate_eq_flatten l ls).symm⟩
  · rintro ⟨ls, hne, hls, rfl⟩
    obtain ⟨l, ls, rfl⟩ := List.exists_cons_of_ne_nil hne
    obtain ⟨hl, hls⟩ := List.forall_mem_cons.mp hls
    refine ⟨l, mem_label.mpr hl, (ls.map (fun m => lit "." ++ m)).flatten, ?_,
      (intercalate_eq_flatten l ls).symm⟩
    rw [RegularExpression.matches'_star, Language.mem_kstar]
    refine ⟨_, rfl, fun w hw => ?_⟩
    obtain ⟨m, hm, rfl⟩ := List.mem_map.mp hw
    exact (hdotted _).mpr ⟨m, hls m hm, rfl⟩

/-- Letters, digits, dashes and dots, starting with a letter or a digit. -/
structure IsDotted (v : GoString) : Prop where
  bytes : ∀ b ∈ v, b ∈ lit "." ++ dashAlnum
  first : ∃ b ∈ alnum, v.head? = some b

theorem IsLabel.isDotted {v : GoString} (h : IsLabel v) : IsDotted v :=
  ⟨fun b hb => List.mem_append_right _ (h.bytes b hb), h.first⟩

theorem IsSubdomain.isDotted {v : GoString} (h : IsSubdomain v) : IsDotted v := by
  obtain ⟨ls, hne, hls, rfl⟩ := h
  obtain ⟨l, ls, rfl⟩ := List.exists_cons_of_ne_nil hne
  obtain ⟨hl, hls⟩ := List.forall_mem_cons.mp hls
  rw [intercalate_eq_flatten]
  refine ⟨fun b hb => ?_, ?_⟩
  · rcases List.mem_append.mp hb with hb | hb
    · exact hl.isDotted.bytes b hb
    · obtain ⟨w, hw, hbw⟩ := List.mem_flatten.mp hb
      obtain ⟨m, hm, rfl⟩ := List.mem_map.mp hw
      rcases List.mem_append.mp hbw with hb | hb
      · exact List.mem_append_left _ hb
      · exact (hls m hm).isDotted.bytes b hb
  · obtain ⟨b, hb, hhead⟩ := hl.first
    exact ⟨b, hb, by rw [List.head?_append, hhead]; rfl⟩

end K3smApis.DnsName
