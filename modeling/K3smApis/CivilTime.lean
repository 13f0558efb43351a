import Mathlib.Tactic

/-!
# Calendar days

The proleptic Gregorian calendar: which dates exist, and how many days lie between
them and 1 January 1970.
-/
namespace K3smApis.Civil

/-- A calendar day. -/
structure Date where
  year : ℕ
  month : ℕ
  day : ℕ
  deriving DecidableEq, Repr

def isLeap (year : ℕ) : Bool := year % 4 = 0 && (year % 100 ≠ 0 || year % 400 = 0)

def daysIn (month year : ℕ) : ℕ :=
  if month = 2 then (if isLeap year then 29 else 28)
  else if month = 4 ∨ month = 6 ∨ month = 9 ∨ month = 11 then 30
  else 31

/-- The month exists, and the day in it. -/
def Date.Exists (d : Date) : Prop :=
  1 ≤ d.month ∧ d.month ≤ 12 ∧ 1 ≤ d.day ∧ d.day ≤ daysIn d.month d.year

instance (d : Date) : Decidable d.Exists := inferInstanceAs (Decidable (_ ∧ _ ∧ _ ∧ _))

/-- Whether a day lies before another. -/
def Date.before (a b : Date) : Bool :=
  a.year < b.year ||
    a.year = b.year && (a.month < b.month || a.month = b.month && a.day < b.day)

/-- The days of the years from 1 up to a year. -/
def daysBeforeYear (year : ℕ) : ℕ :=
  365 * (year - 1) + (year - 1) / 4 - (year - 1) / 100 + (year - 1) / 400

/-- The days of a year in front of a month. -/
def daysBeforeMonth (month year : ℕ) : ℕ := ((List.range' 1 (month - 1)).map (daysIn · year)).sum

/-- The number of days from 1 January 1970 to a date from year 1 on. -/
def Date.unixDay (d : Date) : ℤ :=
  ((daysBeforeYear d.year + daysBeforeMonth d.month d.year + d.day : ℕ) : ℤ) - 719163

/-- The value of a text of decimal digits. -/
def number (t : List Char) : ℕ := t.foldl (fun n c => 10 * n + (c.toNat - '0'.toNat)) 0

example : (⟨1970, 1, 1⟩ : Date).unixDay = 0 := by decide
example : (⟨2000, 3, 1⟩ : Date).unixDay = 11017 := by decide

end K3smApis.Civil
