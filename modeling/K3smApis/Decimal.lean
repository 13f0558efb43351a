import K3smApis.RuneText

/-!
# Decimal numerals

Integers as Go writes them in base 10 and `strconv.ParseInt` reads them back.
-/
namespace K3smApis

namespace Decimal

def isDigit (b : UInt8) : Bool := 0x30 ≤ b && b ≤ 0x39

/-- The value of a text of digits. -/
def value (t : GoString) : ℕ := t.foldl (fun n b => 10 * n + (b.toNat - 0x30)) 0

/-- A natural number in base 10. -/
def ofNat (n : ℕ) : GoString := (Nat.toDigits 10 n).map Char.toUInt8

/-- `strconv.Itoa`. -/
def ofInt (n : ℤ) : GoString :=
  if n < 0 then 0x2d :: ofNat n.natAbs else ofNat n.natAbs

/-- A text of one digit or more, read in base 10. -/
def parseNat (t : GoString) : Option ℕ :=
  if t ≠ [] ∧ t.all isDigit then some (value t) else none

/-- A sign, which may be missing, and digits. -/
def signed : GoString → Option ℤ
  | [] => none
  | b :: t =>
    if b = 0x2d then (parseNat t).map (fun n : ℕ => -Int.ofNat n)
    else if b = 0x2b then (parseNat t).map Int.ofNat
    else (parseNat (b :: t)).map Int.ofNat

/-- `strconv.ParseInt(t, 10, bits)`: the value, when the width holds it. -/
def parseInt (bits : ℕ) (t : GoString) : Option ℤ :=
  (signed t).filter (fun n => -2 ^ (bits - 1) ≤ n ∧ n < 2 ^ (bits - 1))

/-- The midpoint of the largest float64 and 2^1024, the least number that rounds to
infinity. -/
def floatBound : ℕ := (2 ^ 54 - 1) * 2 ^ 970

/-- Whether `strconv.ParseFloat(t, 64)` of a JSON number stays finite. -/
def inFloatRange (t : GoString) : Bool :=
  let t := if t.head? = some 0x2d then t.drop 1 else t
  let whole := t.takeWhile isDigit
  let rest := t.drop whole.length
  let fraction := if rest.head? = some 0x2e then (rest.drop 1).takeWhile isDigit else []
  let rest := if rest.head? = some 0x2e then rest.drop (1 + fraction.length) else rest
  let exponent := (signed (rest.drop 1)).getD 0 - fraction.length
  let mantissa := value (whole ++ fraction)
  if 0 ≤ exponent then mantissa * 10 ^ exponent.toNat < floatBound
  else mantissa < floatBound * 10 ^ (-exponent).toNat

theorem toNat_toUInt8 {c : Char} (h : c.isDigit = true) : c.toUInt8.toNat = c.toNat := by
  have hc : c.toNat ≤ 57 := by simpa [Char.isDigit_iff_toNat] using (Char.isDigit_iff_toNat.mp h).2
  show c.toNat % 2 ^ 8 = c.toNat
  exact Nat.mod_eq_of_lt (by omega)

theorem isDigit_toUInt8 {c : Char} (h : c.isDigit = true) : isDigit c.toUInt8 = true := by
  obtain ⟨hlo, hhi⟩ : 48 ≤ c.toNat ∧ c.toNat ≤ 57 := by simpa [Char.isDigit_iff_toNat] using h
  rw [isDigit, Bool.and_eq_true, decide_eq_true_iff, decide_eq_true_iff, UInt8.le_iff_toNat_le,
    UInt8.le_iff_toNat_le, toNat_toUInt8 h]
  exact ⟨hlo, hhi⟩

theorem ofNat_ne_nil (n : ℕ) : ofNat n ≠ [] := by
  rw [ofNat, ne_eq, List.map_eq_nil_iff]
  exact Nat.toDigits_ne_nil

theorem isDigit_ofNat {n : ℕ} {b : UInt8} (h : b ∈ ofNat n) : isDigit b = true := by
  obtain ⟨c, hc, rfl⟩ := List.mem_map.mp h
  exact isDigit_toUInt8 (Nat.isDigit_of_mem_toDigits (by omega) (by omega) hc)

theorem value_ofNat (n : ℕ) : value (ofNat n) = n := by
  have hfold : ∀ (l : List Char) (acc : ℕ), (∀ c ∈ l, c.isDigit = true) →
      (l.map Char.toUInt8).foldl (fun n b => 10 * n + (b.toNat - 0x30)) acc =
        Nat.ofDigitChars 10 l acc := by
    intro l
    induction l with
    | nil => intro acc _; rfl
    | cons c l ih =>
      intro acc hl
      rw [List.map_cons, List.foldl_cons, Nat.ofDigitChars_cons,
        toNat_toUInt8 (hl c List.mem_cons_self),
        ih _ (fun d hd => hl d (List.mem_cons_of_mem c hd))]
      rfl
  rw [value, ofNat, hfold _ 0 (fun c hc => Nat.isDigit_of_mem_toDigits (by omega) (by omega) hc)]
  exact Nat.ofDigitChars_ten_toDigits

theorem parseNat_ofNat (n : ℕ) : parseNat (ofNat n) = some n := by
  have hall : (ofNat n).all isDigit = true := List.all_eq_true.mpr (fun b hb => isDigit_ofNat hb)
  rw [parseNat, if_pos ⟨ofNat_ne_nil n, hall⟩, value_ofNat]

theorem ofInt_ne_nil (n : ℤ) : ofInt n ≠ [] := by
  unfold ofInt
  split_ifs
  · simp
  · exact ofNat_ne_nil _

/-- A numeral starts with a minus sign or a digit. -/
theorem ofInt_head {n : ℤ} {b : UInt8} {t : GoString} (h : ofInt n = b :: t) :
    b = 0x2d ∨ isDigit b = true := by
  unfold ofInt at h
  split_ifs at h
  · exact .inl (List.cons.inj h).1.symm
  · exact .inr (isDigit_ofNat (by rw [h]; exact List.mem_cons_self))

theorem signed_ofInt (n : ℤ) : signed (ofInt n) = some n := by
  by_cases hn : n < 0
  · simp only [signed, ofInt, if_pos hn, if_true, parseNat_ofNat, Option.map_some,
      Int.ofNat_eq_natCast]
    congr 1
    omega
  · obtain ⟨b, t, hbt⟩ := List.exists_cons_of_ne_nil (ofNat_ne_nil n.natAbs)
    have hb : isDigit b = true := isDigit_ofNat (by rw [hbt]; exact List.mem_cons_self)
    have hminus : b ≠ 0x2d := by rintro rfl; exact absurd hb (by decide)
    have hplus : b ≠ 0x2b := by rintro rfl; exact absurd hb (by decide)
    rw [ofInt, if_neg hn, hbt, signed, if_neg hminus, if_neg hplus, ← hbt, parseNat_ofNat,
      Option.map_some, Int.ofNat_eq_natCast]
    congr 1
    omega

theorem parseInt_ofInt {bits : ℕ} {n : ℤ} (hlo : -2 ^ (bits - 1) ≤ n) (hhi : n < 2 ^ (bits - 1)) :
    parseInt bits (ofInt n) = some n := by
  rw [parseInt, signed_ofInt]
  exact Option.filter_some_pos (by simp [hlo, hhi])

/-- Every 64-bit integer is in the range of float64. -/
theorem inFloatRange_ofInt {n : ℤ} (h : n.natAbs ≤ 2 ^ 64) : inFloatRange (ofInt n) = true := by
  have hdrop : (if (ofInt n).head? = some 0x2d then (ofInt n).drop 1 else ofInt n) =
      ofNat n.natAbs := by
    unfold ofInt
    split_ifs with hn hhead hhead
    · rfl
    · exact absurd rfl hhead
    · exact absurd (isDigit_ofNat (List.mem_of_head? hhead)) (by decide)
    · rfl
  have hwhole : (ofNat n.natAbs).takeWhile isDigit = ofNat n.natAbs :=
    List.takeWhile_eq_self_iff.mpr (fun b hb => isDigit_ofNat hb)
  have hpow : ∀ e, 64 < e → n.natAbs < (2 ^ 54 - 1) * 2 ^ e := by
    intro e he
    calc n.natAbs ≤ 2 ^ 64 := h
      _ < 2 ^ e := Nat.pow_lt_pow_right (by omega) he
      _ ≤ (2 ^ 54 - 1) * 2 ^ e := Nat.le_mul_of_pos_left _ (by norm_num)
  have hbound : n.natAbs < floatBound := hpow 970 (by omega)
  unfold inFloatRange
  simp only [hdrop, hwhole, List.drop_length, List.head?_nil, List.drop_nil]
  simpa [signed, value_ofNat] using hbound

theorem length_ofNat_le {n k : ℕ} (hk : 0 < k) (h : n < 10 ^ k) : (ofNat n).length ≤ k := by
  rw [ofNat, List.length_map]
  exact (Nat.length_toDigits_le_iff (by omega) hk).mpr h

/-- A numeral of more than one digit does not start with a zero. -/
theorem ofNat_head (n : ℕ) : ofNat n = [0x30] ∨ (ofNat n).head? ≠ some 0x30 := by
  by_cases hn : n = 0
  · subst hn
    exact .inl (by decide)
  · right
    have hlead := toDigits_head?_ne_zero (Nat.pos_of_ne_zero hn)
    rw [ofNat, List.head?_map]
    intro h
    obtain ⟨c, hc, hzero⟩ := Option.map_eq_some_iff.mp h
    have hdigit := Nat.isDigit_of_mem_toDigits (by omega) (by omega) (List.mem_of_head? hc)
    have htoNat := congrArg UInt8.toNat hzero
    rw [toNat_toUInt8 hdigit] at htoNat
    rw [Char.toNat_inj.mp (show c.toNat = '0'.toNat from htoNat)] at hc
    exact hlead hc

end Decimal

end K3smApis
