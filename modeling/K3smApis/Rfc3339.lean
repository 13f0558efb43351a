import K3smApis.Decimal

/-!
# RFC 3339 timestamps

Instants as Unix seconds, written as Go's time package formats them in UTC with the layout
RFC3339 and read as `time.Parse` reads that layout, which also takes an hour of one digit,
a fraction of a second and offsets of up to 24 hours and 60 minutes.
-/
namespace K3smApis

namespace Rfc3339

/-- The days from 1 January of year 1 to 1 January of a year. -/
def yearStart (y : ℤ) : ℤ := 365 * (y - 1) + (y - 1) / 4 - (y - 1) / 100 + (y - 1) / 400

def isLeap (y : ℤ) : Bool := y % 4 = 0 && (y % 100 ≠ 0 || y % 400 = 0)

/-- The lengths of the months. -/
def monthLengths (y : ℤ) : List ℕ :=
  [31, if isLeap y then 29 else 28, 31, 30, 31, 30, 31, 31, 30, 31, 30, 31]

/-- The days from 1 January of year 1 to a day, its month and day counted from 0. -/
def dayNumber (y : ℤ) (month day : ℕ) : ℤ :=
  yearStart y + (((monthLengths y).take month).sum + day : ℕ)

/-- The year of a day, and the days of that year before it. -/
def splitYear (d : ℤ) : ℤ × ℕ :=
  let n400 := d / 146097
  let r400 := d % 146097
  let n100 := min (r400 / 36524) 3
  let r100 := r400 - 36524 * n100
  let n4 := r100 / 1461
  let r4 := r100 % 1461
  let n1 := min (r4 / 365) 3
  (400 * n400 + 100 * n100 + 4 * n4 + n1 + 1, (r4 - 365 * n1).toNat)

/-- The months of a year that lie before a day of it, and the days of its month. -/
def splitMonth : List ℕ → ℕ → ℕ × ℕ
  | [], k => (0, k)
  | n :: ns, k =>
    if k < n then (0, k) else ((splitMonth ns (k - n)).1 + 1, (splitMonth ns (k - n)).2)

theorem sum_monthLengths (y : ℤ) :
    (monthLengths y).sum = if isLeap y then 366 else 365 := by
  unfold monthLengths
  split_ifs <;> rfl

section Cycles

variable {a b c n : ℤ} (hb : 0 ≤ b ∧ b ≤ 3) (hc : 0 ≤ c ∧ c ≤ 24) (hn : 0 ≤ n ∧ n ≤ 3)

include hb hc hn

/-- A year by its place in the cycles of 400, 100 and 4 years. -/
theorem yearStart_cycles :
    yearStart (400 * a + 100 * b + 4 * c + n + 1) =
      146097 * a + 36524 * b + 1461 * c + 365 * n := by
  unfold yearStart
  omega

theorem isLeap_cycles :
    isLeap (400 * a + 100 * b + 4 * c + n + 1) = true ↔ n = 3 ∧ (c ≠ 24 ∨ b = 3) := by
  simp only [isLeap, Bool.and_eq_true, Bool.or_eq_true, decide_eq_true_eq]
  omega

end Cycles

theorem splitYear_spec (d : ℤ) :
    yearStart (splitYear d).1 + (splitYear d).2 = d ∧
      (splitYear d).2 < (monthLengths (splitYear d).1).sum := by
  rw [sum_monthLengths]
  unfold splitYear
  extract_lets a r400 b r100 c r4 n
  have ha : d = 146097 * a + r400 ∧ 0 ≤ r400 ∧ r400 < 146097 := by omega
  have hb : 0 ≤ b ∧ b ≤ 3 := by omega
  have hr100 : 0 ≤ r100 ∧ (r100 < 36524 ∨ b = 3 ∧ r100 = 36524) := by omega
  have hc : 0 ≤ c ∧ c ≤ 24 := by omega
  have hr4 : r100 = 1461 * c + r4 ∧ 0 ≤ r4 ∧ r4 < 1461 := by omega
  have hn : 0 ≤ n ∧ n ≤ 3 := by omega
  have hk : 0 ≤ r4 - 365 * n ∧ (r4 - 365 * n < 365 ∨ n = 3 ∧ r4 = 1460) := by omega
  have hstart := yearStart_cycles (a := a) hb hc hn
  have hleap := isLeap_cycles (a := a) hb hc hn
  refine ⟨by simp only; omega, ?_⟩
  simp only
  split_ifs with hl
  · omega
  · have : ¬(n = 3 ∧ (c ≠ 24 ∨ b = 3)) := fun h => hl (hleap.mpr h)
    omega

theorem splitMonth_spec {ns : List ℕ} {k : ℕ} (h : k < ns.sum) :
    ((ns.take (splitMonth ns k).1).sum + (splitMonth ns k).2 = k) ∧
      (splitMonth ns k).2 < ns.getD (splitMonth ns k).1 0 := by
  induction ns generalizing k with
  | nil => simp at h
  | cons n ns ih =>
    rw [List.sum_cons] at h
    unfold splitMonth
    by_cases hk : k < n
    · simp [hk]
    · have := ih (k := k - n) (by omega)
      simp only [if_neg hk, List.take_succ_cons, List.sum_cons, List.getD_cons_succ]
      exact ⟨by omega, this.2⟩

/-- A day by its year, and its month and day counted from 0. -/
def civil (d : ℤ) : ℤ × ℕ × ℕ :=
  ((splitYear d).1, splitMonth (monthLengths (splitYear d).1) (splitYear d).2)

theorem civil_spec (d : ℤ) :
    dayNumber (civil d).1 (civil d).2.1 (civil d).2.2 = d ∧ (civil d).2.1 < 12 ∧
      (civil d).2.2 < (monthLengths (civil d).1).getD (civil d).2.1 0 := by
  obtain ⟨hyear, hlt⟩ := splitYear_spec d
  obtain ⟨hmonth, hday⟩ := splitMonth_spec hlt
  refine ⟨?_, ?_, hday⟩
  · rw [dayNumber]
    exact (congrArg (fun k : ℕ => yearStart (splitYear d).1 + (k : ℤ)) hmonth).trans hyear
  · by_contra hge
    have hnone : (monthLengths (civil d).1)[(civil d).2.1]? = none :=
      List.getElem?_eq_none (Nat.not_lt.mp hge)
    rw [civil] at hnone
    rw [List.getD_eq_getElem?_getD, hnone] at hday
    exact Nat.not_lt_zero _ hday

/-- Days of the years 1 to 9999 have a year in that range. -/
theorem civil_year {d : ℤ} (hlo : 0 ≤ d) (hhi : d < 3652059) :
    1 ≤ (civil d).1 ∧ (civil d).1 ≤ 9999 := by
  obtain ⟨hyear, hlt⟩ := splitYear_spec d
  rw [sum_monthLengths] at hlt
  have hk : (splitYear d).2 ≤ 365 := by
    split_ifs at hlt <;> omega
  show 1 ≤ (splitYear d).1 ∧ (splitYear d).1 ≤ 9999
  unfold yearStart at hyear
  generalize (splitYear d).1 = y at hyear ⊢
  constructor
  · by_contra hy
    -- year 0 apart: its 366 days end right before day 0
    by_cases hzero : y = 0
    · subst hzero
      omega
    · omega
  · omega

/-- A number below 100 in two digits. -/
def pad2 (n : ℕ) : GoString := [UInt8.ofNat (0x30 + n / 10), UInt8.ofNat (0x30 + n % 10)]

/-- A year in four digits or more. -/
def padYear (n : ℕ) : GoString :=
  if n < 10000 then pad2 (n / 100) ++ pad2 (n % 100) else Decimal.ofNat n

/-- `t.UTC().Format(time.RFC3339)`. -/
def format (sec : ℤ) : GoString :=
  let date := civil (sec / 86400 + 719162)
  let clock := (sec % 86400).toNat
  (if date.1 < 0 then 0x2d :: padYear date.1.natAbs else padYear date.1.natAbs) ++
    0x2d :: pad2 (date.2.1 + 1) ++ 0x2d :: pad2 (date.2.2 + 1) ++ 0x54 :: pad2 (clock / 3600) ++
    0x3a :: pad2 (clock / 60 % 60) ++ 0x3a :: pad2 (clock % 60) ++ [0x5a]

def expect (c : UInt8) : GoString → Option GoString
  | [] => none
  | b :: t => if b = c then some t else none

/-- `getnum(value, true)`: two digits. -/
def number2 : GoString → Option (ℕ × GoString)
  | a :: b :: t =>
    if Decimal.isDigit a ∧ Decimal.isDigit b then some (Decimal.value [a, b], t) else none
  | _ => none

/-- `getnum(value, false)`: two digits, or one. -/
def number12 (t : GoString) : Option (ℕ × GoString) :=
  match number2 t, t with
  | some r, _ => some r
  | none, a :: t => if Decimal.isDigit a then some (Decimal.value [a], t) else none
  | none, [] => none

/-- A fraction of a second, in nanoseconds; digits beyond the ninth are dropped. -/
def fraction : GoString → ℕ × GoString
  | p :: t =>
    let digits := t.takeWhile Decimal.isDigit
    if (p = 0x2e ∨ p = 0x2c) ∧ digits ≠ [] then
      (Decimal.value (digits.take 9) * 10 ^ (9 - (digits.take 9).length), t.drop digits.length)
    else (0, p :: t)
  | [] => (0, [])

/-- The offset from UTC in seconds, at the end of a timestamp. -/
def zone (t : GoString) : Option ℤ :=
  if t = [0x5a] then some 0
  else match t with
    | sign :: t => do
      let (hours, t) ← number2 t
      let t ← expect 0x3a t
      let (minutes, t) ← number2 t
      let offset : ℤ := (hours * 60 + minutes) * 60
      if t ≠ [] ∨ 24 < hours ∨ 60 < minutes then none
      else if sign = 0x2b then some offset
      else if sign = 0x2d then some (-offset)
      else none
    | [] => none

/-- A year of four digits, a month and a day. -/
def readDate (t : GoString) : Option ((ℕ × ℕ × ℕ) × GoString) := do
  let (century, t) ← number2 t
  let (year, t) ← number2 t
  let t ← expect 0x2d t
  let (month, t) ← number2 t
  let t ← expect 0x2d t
  let (day, t) ← number2 t
  some ((century * 100 + year, month, day), t)

/-- Hours, minutes and seconds. -/
def readClock (t : GoString) : Option ((ℕ × ℕ × ℕ) × GoString) := do
  let (hour, t) ← number12 t
  let t ← expect 0x3a t
  let (minute, t) ← number2 t
  let t ← expect 0x3a t
  let (second, t) ← number2 t
  some ((hour, minute, second), t)

/-- `time.Parse(time.RFC3339, t)`: Unix seconds and nanoseconds. -/
def parse (t : GoString) : Option (ℤ × ℕ) := do
  let ((year, month, day), t) ← readDate t
  let t ← expect 0x54 t
  let ((hour, minute, second), t) ← readClock t
  let offset ← zone (fraction t).2
  if 1 ≤ month ∧ month ≤ 12 ∧ 1 ≤ day ∧ day ≤ (monthLengths year).getD (month - 1) 0 ∧
      hour < 24 ∧ minute < 60 ∧ second < 60 then
    some ((dayNumber year (month - 1) (day - 1) - 719162) * 86400 +
      ((hour * 60 + minute) * 60 + second : ℕ) - offset, (fraction t).1)
  else none

example : format 1790000000 = lit "2026-09-21T14:13:20Z" := by decide +kernel
example : parse (lit "2026-09-21T4:13:20,25+02:00") = some (1789956800, 250000000) := by
  decide +kernel

theorem isDigit_ofNat {n : ℕ} (h : n < 10) : Decimal.isDigit (UInt8.ofNat (0x30 + n)) = true := by
  interval_cases n <;> rfl

theorem value_pad2 {n : ℕ} (h : n < 100) : Decimal.value (pad2 n) = n := by
  have hbyte : ∀ d < 10, (UInt8.ofNat (0x30 + d)).toNat = 0x30 + d := by
    intro d hd
    exact Nat.mod_eq_of_lt (by omega)
  show 10 * (10 * 0 + ((UInt8.ofNat (0x30 + n / 10)).toNat - 0x30)) +
    ((UInt8.ofNat (0x30 + n % 10)).toNat - 0x30) = n
  rw [hbyte _ (by omega), hbyte _ (by omega)]
  omega

theorem number2_pad2 {n : ℕ} (h : n < 100) (t : GoString) :
    number2 (pad2 n ++ t) = some (n, t) := by
  have hdigits : Decimal.isDigit (UInt8.ofNat (0x30 + n / 10)) = true ∧
      Decimal.isDigit (UInt8.ofNat (0x30 + n % 10)) = true :=
    ⟨isDigit_ofNat (by omega), isDigit_ofNat (by omega)⟩
  show (if _ then some (Decimal.value (pad2 n), t) else none) = _
  rw [if_pos hdigits, value_pad2 h]

theorem number12_pad2 {n : ℕ} (h : n < 100) (t : GoString) :
    number12 (pad2 n ++ t) = some (n, t) := by
  unfold number12
  rw [number2_pad2 h]

theorem expect_cons (c : UInt8) (t : GoString) : expect c (c :: t) = some t := if_pos rfl

theorem monthLengths_le (y : ℤ) (m : ℕ) : (monthLengths y).getD m 0 ≤ 31 := by
  unfold monthLengths
  rcases m with _ | _ | _ | _ | _ | _ | _ | _ | _ | _ | _ | _ | m <;> simp
  split_ifs <;> omega

/-- A time of the years 1 to 9999. -/
def InYears (sec : ℤ) : Prop := -62135596800 ≤ sec ∧ sec ≤ 253402300799

instance (sec : ℤ) : Decidable (InYears sec) := inferInstanceAs (Decidable (_ ∧ _))

/-- The year of a time, in UTC. -/
def year (sec : ℤ) : ℤ := (civil (sec / 86400 + 719162)).1

theorem year_of_inYears {sec : ℤ} (h : InYears sec) : 1 ≤ year sec ∧ year sec ≤ 9999 := by
  obtain ⟨hlo, hhi⟩ := h
  exact civil_year (by omega) (by omega)

/-- The parts of the timestamp of a time whose year has four digits. -/
theorem format_eq_of_year {sec : ℤ} (hlo : 0 ≤ year sec) (hhi : year sec ≤ 9999) :
    ∃ y m d c : ℕ, y ≤ 9999 ∧ m < 12 ∧ d < (monthLengths y).getD m 0 ∧ c < 86400 ∧
      (dayNumber y m d - 719162) * 86400 + c = sec ∧
      format sec = pad2 (y / 100) ++ (pad2 (y % 100) ++ (0x2d :: (pad2 (m + 1) ++ (0x2d ::
        (pad2 (d + 1) ++ (0x54 :: (pad2 (c / 3600) ++ (0x3a :: (pad2 (c / 60 % 60) ++ (0x3a ::
          (pad2 (c % 60) ++ [0x5a]))))))))))) := by
  obtain ⟨hday, hmonth, hlt⟩ := civil_spec (sec / 86400 + 719162)
  obtain ⟨y, hy⟩ := Int.eq_ofNat_of_zero_le hlo
  rw [year] at hy hhi
  refine ⟨y, _, _, (sec % 86400).toNat, by omega, hmonth, hy ▸ hlt, by omega, ?_, ?_⟩
  · rw [← hy, hday]
    omega
  · have hneg : ¬(y : ℤ) < 0 := by omega
    have hsmall : y < 10000 := by omega
    simp [format, hy, hneg, padYear, hsmall]

/-- The parts of the timestamp of a time in these years. -/
theorem format_eq {sec : ℤ} (h : InYears sec) :
    ∃ y m d c : ℕ, y ≤ 9999 ∧ m < 12 ∧ d < (monthLengths y).getD m 0 ∧ c < 86400 ∧
      (dayNumber y m d - 719162) * 86400 + c = sec ∧
      format sec = pad2 (y / 100) ++ (pad2 (y % 100) ++ (0x2d :: (pad2 (m + 1) ++ (0x2d ::
        (pad2 (d + 1) ++ (0x54 :: (pad2 (c / 3600) ++ (0x3a :: (pad2 (c / 60 % 60) ++ (0x3a ::
          (pad2 (c % 60) ++ [0x5a]))))))))))) := by
  obtain ⟨hlo, hhi⟩ := year_of_inYears h
  exact format_eq_of_year (by omega) hhi

theorem length_format {sec : ℤ} (h : InYears sec) : (format sec).length = 20 := by
  obtain ⟨y, m, d, c, -, -, -, -, -, hformat⟩ := format_eq h
  rw [hformat]
  rfl

/-- The bytes of a timestamp. -/
def timestampBytes : GoString := lit "0123456789-T:Z"

theorem pad2_subset {n : ℕ} (h : n < 100) : pad2 n ⊆ timestampBytes := by
  have hall : ∀ n < 100, (pad2 n).all (· ∈ timestampBytes) = true := by decide
  exact fun b hb => of_decide_eq_true (List.all_eq_true.mp (hall n h) b hb)

theorem format_subset {sec : ℤ} (h : InYears sec) : format sec ⊆ timestampBytes := by
  obtain ⟨y, m, d, c, hy, hm, hd, hc, -, hformat⟩ := format_eq h
  have hday := monthLengths_le y m
  have hmarks : [0x2d, 0x54, 0x3a, 0x5a] ⊆ timestampBytes := by decide
  simp only [List.cons_subset, List.nil_subset, and_true] at hmarks
  rw [hformat]
  simp only [List.append_subset, List.cons_subset, List.nil_subset, hmarks, true_and, and_true]
  refine ⟨?_, ?_, ?_, ?_, ?_, ?_, ?_⟩ <;> apply pad2_subset <;> omega

theorem readDate_pad {y m d : ℕ} (hy : y ≤ 9999) (hm : m < 100) (hd : d < 100) (t : GoString) :
    readDate (pad2 (y / 100) ++ (pad2 (y % 100) ++ (0x2d :: (pad2 m ++ (0x2d :: (pad2 d ++ t)))))) =
      some ((y, m, d), t) := by
  simp only [readDate, number2_pad2 (show y / 100 < 100 by omega),
    number2_pad2 (show y % 100 < 100 by omega), number2_pad2 hm, number2_pad2 hd, expect_cons,
    Option.bind_eq_bind, Option.bind_some]
  rw [Nat.div_add_mod' y 100]

theorem readClock_pad {h m s : ℕ} (hh : h < 100) (hm : m < 100) (hs : s < 100) (t : GoString) :
    readClock (pad2 h ++ (0x3a :: (pad2 m ++ (0x3a :: (pad2 s ++ t))))) = some ((h, m, s), t) := by
  simp only [readClock, number12_pad2 hh, number2_pad2 hm, number2_pad2 hs, expect_cons,
    Option.bind_eq_bind, Option.bind_some]

theorem parse_format {sec : ℤ} (h : InYears sec) : parse (format sec) = some (sec, 0) := by
  obtain ⟨y, m, d, c, hy, hm, hd, hc, hsec, hformat⟩ := format_eq h
  have hd31 := monthLengths_le y m
  have hclock : (c / 3600 * 60 + c / 60 % 60) * 60 + c % 60 = c := by omega
  have hfraction : fraction [0x5a] = (0, [0x5a]) := by decide
  have hzone : zone [0x5a] = some 0 := by decide
  have hrange : 1 ≤ m + 1 ∧ m + 1 ≤ 12 ∧ 1 ≤ d + 1 ∧
      d + 1 ≤ (monthLengths y).getD m 0 ∧ c / 3600 < 24 ∧
      c / 60 % 60 < 60 ∧ c % 60 < 60 := by
    refine ⟨?_, ?_, ?_, hd, ?_, ?_, ?_⟩ <;> omega
  rw [hformat, parse, readDate_pad hy (by omega) (by omega)]
  simp only [Option.bind_eq_bind, Option.bind_some, expect_cons]
  rw [readClock_pad (by omega) (by omega) (by omega)]
  simp only [Option.bind_some, hfraction, hzone, hclock, Nat.add_sub_cancel, hsec, Int.sub_zero]
  exact if_pos hrange

/-- A marker that may be written in either case. -/
def expectLetter (upper lower : UInt8) : GoString → Option GoString
  | [] => none
  | b :: t => if b = upper ∨ b = lower then some t else none

/-- `Z`, or an offset of hours and minutes with its sign. -/
def isOffset (t : GoString) : Bool :=
  expectLetter 0x5a 0x7a t = some [] ||
    match t with
    | sign :: t =>
      match number2 t with
      | some (hours, colon :: t) =>
        match number2 t with
        | some (minutes, []) =>
          (sign = 0x2b || sign = 0x2d) && hours < 24 && colon = 0x3a && minutes < 60
        | _ => false
      | _ => false
    | [] => false

/-- What is left behind a fraction of a second, which starts with a point. -/
def afterFraction : GoString → GoString
  | 0x2e :: t => if t.takeWhile Decimal.isDigit = [] then 0x2e :: t else t.dropWhile Decimal.isDigit
  | t => t

/-- The `date-time` of RFC 3339, without leap seconds: fields of a fixed width, which `parse`
does not ask for. -/
def isDateTime (t : GoString) : Bool :=
  let read : Option Bool := do
    let ((year, month, day), t) ← readDate t
    let t ← expectLetter 0x54 0x74 t
    let (hour, t) ← number2 t
    let t ← expect 0x3a t
    let (minute, t) ← number2 t
    let t ← expect 0x3a t
    let (second, t) ← number2 t
    some (1 ≤ month && month ≤ 12 && 1 ≤ day && day ≤ (monthLengths year).getD (month - 1) 0 &&
      hour < 24 && minute < 60 && second < 60 && isOffset (afterFraction t))
  read.getD false

theorem isDateTime_of_year {sec : ℤ} (hlo : 0 ≤ year sec) (hhi : year sec ≤ 9999) :
    isDateTime (format sec) = true := by
  obtain ⟨y, m, d, c, hy, hm, hd, hc, -, hformat⟩ := format_eq_of_year hlo hhi
  have hd31 := monthLengths_le y m
  have hletter (t : GoString) : expectLetter 0x54 0x74 (0x54 :: t) = some t := by
    rw [expectLetter, if_pos (Or.inl rfl)]
  have hoffset : isOffset (afterFraction [0x5a]) = true := by decide
  have hrange : 1 ≤ m + 1 ∧ m + 1 ≤ 12 ∧ 1 ≤ d + 1 ∧
      d + 1 ≤ (monthLengths y).getD m 0 ∧ c / 3600 < 24 ∧
      c / 60 % 60 < 60 ∧ c % 60 < 60 := by
    refine ⟨?_, ?_, ?_, hd, ?_, ?_, ?_⟩ <;> omega
  rw [hformat, isDateTime, readDate_pad hy (by omega) (by omega)]
  simp only [Option.bind_eq_bind, Option.bind_some, hletter, expect_cons,
    number2_pad2 (show c / 3600 < 100 by omega), number2_pad2 (show c / 60 % 60 < 100 by omega),
    number2_pad2 (show c % 60 < 100 by omega), Nat.add_sub_cancel, hrange, hoffset, decide_true,
    Bool.and_self, Option.getD_some]

/-- A date starts with a digit. -/
theorem readDate_of_head {b : UInt8} {t : GoString} (hb : Decimal.isDigit b = false) :
    readDate (b :: t) = none := by
  have hnumber : number2 (b :: t) = none := by
    cases t <;> simp [number2, hb]
  rw [readDate, hnumber]
  rfl

/-- A year of five digits or more is not read. -/
theorem readDate_of_long {n : ℕ} (hn : 10000 ≤ n) (t : GoString) :
    readDate (Decimal.ofNat n ++ t) = none := by
  have hlength : 4 < (Decimal.ofNat n).length := by
    rw [Decimal.ofNat, List.length_map, ← Nat.not_le,
      Nat.length_toDigits_le_iff (by omega) (by omega)]
    omega
  have hdigits : ∀ b ∈ Decimal.ofNat n, Decimal.isDigit b = true := fun b hb =>
    Decimal.isDigit_ofNat hb
  generalize Decimal.ofNat n = ds at hlength hdigits
  obtain ⟨a, b, c, d, e, ds, rfl⟩ : ∃ a b c d e ds', ds = a :: b :: c :: d :: e :: ds' := by
    rcases ds with _ | ⟨a, _ | ⟨b, _ | ⟨c, _ | ⟨d, _ | ⟨e, ds⟩⟩⟩⟩⟩
    case cons.cons.cons.cons.cons => exact ⟨a, b, c, d, e, ds, rfl⟩
    all_goals simp at hlength
  simp only [List.forall_mem_cons] at hdigits
  obtain ⟨ha, hb, hc, hd, he, -⟩ := hdigits
  have hdash : e ≠ 0x2d := by
    rintro rfl
    exact absurd he (by decide)
  simp [readDate, number2, ha, hb, hc, hd, expect, hdash]

/-- A timestamp follows the grammar when its year has four digits. -/
theorem isDateTime_format {sec : ℤ} :
    isDateTime (format sec) = true ↔ 0 ≤ year sec ∧ year sec ≤ 9999 := by
  refine ⟨fun h => ?_, fun h => isDateTime_of_year h.1 h.2⟩
  by_contra hyear
  have hdate : readDate (format sec) = none := by
    rw [year] at hyear
    unfold format
    by_cases hneg : (civil (sec / 86400 + 719162)).1 < 0
    · simp only [hneg, if_true, List.cons_append]
      exact readDate_of_head (by decide)
    · have hlarge : 10000 ≤ (civil (sec / 86400 + 719162)).1.natAbs := by omega
      simp only [hneg, if_false, padYear, Nat.not_lt.mpr hlarge, List.append_assoc]
      exact readDate_of_long hlarge _
  rw [isDateTime, hdate] at h
  exact Bool.false_ne_true h

example : isDateTime (lit "2026-09-21T14:13:20.5+02:00") = true := by decide +kernel
example : isDateTime (lit "2026-09-21T4:13:20Z") = false := by decide +kernel

end Rfc3339

end K3smApis
