import K3smApis.BudgetTypes
import Mathlib.Computability.RegularExpressions

/-!
# The checks the budget validators share

`validate.go` and the ladder check of `nodebudgetpolicy.go`. Every check comes with
one lemma that says what an accepting run of it establishes.
-/
namespace K3smApis.Budget
open Check

/-- The Go integer types a check is generic over. -/
class GoInt (T : Type) where
  toInt : T → ℤ

instance : GoInt Int64 := ⟨Int64.toInt⟩
instance : GoInt Int32 := ⟨Int32.toInt⟩

@[simp] theorem toInt_int64 (n : Int64) : GoInt.toInt n = n.toInt := rfl
@[simp] theorem toInt_int32 (n : Int32) : GoInt.toInt n = n.toInt := rfl

/-- `nonNegative`: an error when the value is set and negative. -/
def nonNegative {T : Type} [GoInt T] (name : String) (v : Option T) : Check :=
  match v with
  | none => .ok ()
  | some n => refuseIf (GoInt.toInt n < 0) [.s name, .s " ", .d (GoInt.toInt n), .s " is negative"]

@[simp] theorem nonNegative_ok {T : Type} [GoInt T] {name : String} {v : Option T} :
    nonNegative name v = .ok () ↔ ∀ n ∈ v, 0 ≤ GoInt.toInt n := by
  cases v <;> simp [nonNegative]

/-- `permille`: an error when the value is set and outside 0..1000. -/
def permille {T : Type} [GoInt T] (name : String) (v : Option T) : Check :=
  match v with
  | none => .ok ()
  | some n => refuseIf (GoInt.toInt n < 0 ∨ 1000 < GoInt.toInt n)
      [.s name, .s " ", .d (GoInt.toInt n), .s " is not 0..1000 permille"]

@[simp] theorem permille_ok {T : Type} [GoInt T] {name : String} {v : Option T} :
    permille name v = .ok () ↔ ∀ n ∈ v, 0 ≤ GoInt.toInt n ∧ GoInt.toInt n ≤ 1000 := by
  cases v <;> simp [permille]

/-- The loop `for _, f := range fields { nonNegative(f.name, f.v) }`. -/
def allNonNegative (fields : List (String × Option Int64)) : Check :=
  forEach (fun f => nonNegative f.1 f.2) fields

@[simp] theorem allNonNegative_ok {fields : List (String × Option Int64)} :
    allNonNegative fields = .ok () ↔ ∀ f ∈ fields, ∀ n ∈ f.2, 0 ≤ n.toInt := by
  simp [allNonNegative]

/-- One byte out of a character class. -/
def anyByte (bytes : List UInt8) : RegularExpression UInt8 :=
  (bytes.map RegularExpression.char).foldr (· + ·) 0

/-- A class of bytes as the literal that lists them. -/
def lowerAlnum : List UInt8 := lit "abcdefghijklmnopqrstuvwxyz0123456789"

/-- `[a-z0-9]([-a-z0-9]*[a-z0-9])?` -/
def dns1123Label : RegularExpression UInt8 :=
  anyByte lowerAlnum *
    (1 + (anyByte (lit "-" ++ lowerAlnum)).star * anyByte lowerAlnum)

/-- `dns1123SubdomainRE`: labels joined by dots, anchored at both ends. -/
def dns1123SubdomainRE : RegularExpression UInt8 :=
  dns1123Label * (anyByte (lit ".") * dns1123Label).star

/-- `isObjectName`: the shape of a Kubernetes object name. -/
def isObjectName (s : GoString) : Bool :=
  s.length ≤ 253 ∧ dns1123SubdomainRE.rmatch s = true

/-- `isPrintableASCII`: 1 to `max` bytes of printable ASCII. -/
def isPrintableASCII (s : GoString) (max : ℕ) : Bool :=
  s ≠ [] ∧ s.length ≤ max ∧ s.all (fun b => 0x20 ≤ b ∧ b ≤ 0x7e)

/-- `rungNames` and `releaseNames`: the JSON names of the ladder, in ladder order. -/
def rungNames : List String :=
  ["warnThreshold", "admitStopThreshold", "criticalThreshold", "evictSoftThreshold",
    "evictHardThreshold"]

def releaseNames : List String :=
  ["warnRelease", "admitStopRelease", "criticalRelease", "evictSoftRelease",
    "evictHardRelease"]

/-- The pairs `(l[i], l[j])` with `i < j`, in the order of the two nested loops. -/
def orderedPairs {α : Type} : List α → List (α × α)
  | [] => []
  | a :: as => as.map (fun b => (a, b)) ++ orderedPairs as

theorem mem_of_mem_orderedPairs {α : Type} {l : List α} {p : α × α} (h : p ∈ orderedPairs l) :
    p.1 ∈ l ∧ p.2 ∈ l := by
  induction l with
  | nil => cases h
  | cons a as ih =>
    rcases List.mem_append.mp h with h | h
    · obtain ⟨b, hb, rfl⟩ := List.mem_map.mp h
      exact ⟨List.mem_cons_self .., List.mem_cons_of_mem _ hb⟩
    · exact ⟨List.mem_cons_of_mem _ (ih h).1, List.mem_cons_of_mem _ (ih h).2⟩

theorem forall_orderedPairs {α : Type} {P : α → α → Prop} {l : List α} :
    (∀ p ∈ orderedPairs l, P p.1 p.2) ↔ l.Pairwise P := by
  induction l with
  | nil => simp [orderedPairs]
  | cons a as ih =>
    rw [List.pairwise_cons, ← ih]
    simp only [orderedPairs, List.mem_append, List.mem_map]
    constructor
    · intro h
      exact ⟨fun b hb => h (a, b) (.inl ⟨b, hb, rfl⟩), fun p hp => h p (.inr hp)⟩
    · rintro ⟨ha, hrest⟩ p (⟨b, hb, rfl⟩ | hp)
      · exact ha b hb
      · exact hrest p hp

/-- `calm a b`: on a falling signal the calmer value is the larger one, on a rising
signal the smaller. -/
def calmer (desc : Bool) (a b : Int64) : Prop := if desc then b < a else a < b

instance (desc : Bool) (a b : Int64) : Decidable (calmer desc a b) :=
  inferInstanceAs (Decidable (if desc then b < a else a < b))

/-- The ordering error of two ladder fields, the first of which must be the calmer. -/
def calmerCheck (desc : Bool) (a b : String × Option Int64) : Check :=
  match a.2, b.2 with
  | some x, some y =>
    refuseIf (¬calmer desc x y)
      [.s a.1, .s " ", .d x.toInt, .s (if desc then " must be above " else " must be below "),
        .s b.1, .s " ", .d y.toInt,
        .s (if desc then " on a falling signal" else " on a rising signal")]
  | _, _ => .ok ()

/-- Two optional values in order: vacuous while either is unset. -/
def CalmerOpt (desc : Bool) (a b : Option Int64) : Prop :=
  ∀ x ∈ a, ∀ y ∈ b, calmer desc x y

@[simp] theorem calmerCheck_ok {desc : Bool} {a b : String × Option Int64} :
    calmerCheck desc a b = .ok () ↔ CalmerOpt desc a.2 b.2 := by
  obtain ⟨_, x⟩ := a
  obtain ⟨_, y⟩ := b
  cases x <;> cases y <;> simp [calmerCheck, CalmerOpt]

/-- `checkLadder`: every rung and release non-negative, every pair of set rungs in
order, every set release on the calm side of its set rung, and no evict-soft rung on
memory.swap. -/
def checkLadder (sig : Wire SignalID) (rungs releases : List (Option Int64)) : Check := do
  let desc := isDescending sig
  let namedRungs := rungNames.zip rungs
  let namedReleases := releaseNames.zip releases
  forEach (fun f : (String × Option Int64) × (String × Option Int64) => do
    nonNegative f.1.1 f.1.2
    nonNegative f.2.1 f.2.2) (namedRungs.zip namedReleases)
  forEach (fun p => calmerCheck desc p.1 p.2) (orderedPairs namedRungs)
  forEach (fun f : (String × Option Int64) × (String × Option Int64) =>
    calmerCheck desc f.2 f.1) (namedRungs.zip namedReleases)
  refuseIf (sig = word .memorySwap ∧ rungs.getD 3 none ≠ none)
    [.s "memory.swap has no evictSoftThreshold rung"]

/-- What `checkLadder` establishes of a ladder. -/
structure LadderInOrder (sig : Wire SignalID) (rungs releases : List (Option Int64)) : Prop where
  rungs_nonneg : ∀ r ∈ rungs, ∀ n ∈ r, 0 ≤ n.toInt
  releases_nonneg : ∀ r ∈ releases, ∀ n ∈ r, 0 ≤ n.toInt
  ordered : rungs.Pairwise (CalmerOpt (isDescending sig))
  released : List.Forall₂ (CalmerOpt (isDescending sig)) releases rungs
  swap : sig = word .memorySwap → rungs.getD 3 none = none

theorem checkLadder_ok {sig : Wire SignalID} {r1 r2 r3 r4 r5 l1 l2 l3 l4 l5 : Option Int64} :
    checkLadder sig [r1, r2, r3, r4, r5] [l1, l2, l3, l4, l5] = .ok () ↔
      LadderInOrder sig [r1, r2, r3, r4, r5] [l1, l2, l3, l4, l5] := by
  have hpairs : ∀ desc, (∀ p ∈ orderedPairs (rungNames.zip [r1, r2, r3, r4, r5]),
      CalmerOpt desc p.1.2 p.2.2) ↔ [r1, r2, r3, r4, r5].Pairwise (CalmerOpt desc) := by
    intro desc
    rw [forall_orderedPairs (P := fun a b : String × Option Int64 => CalmerOpt desc a.2 b.2)]
    exact List.pairwise_map (f := Prod.snd) (R := CalmerOpt desc)
      (l := rungNames.zip [r1, r2, r3, r4, r5]) |>.symm
  simp only [checkLadder, bind_ok, forEach_ok, calmerCheck_ok, hpairs, nonNegative_ok,
    toInt_int64, refuseIf_ok, not_and, not_not]
  constructor
  · rintro ⟨hn, ho, hr, hs⟩
    simp [rungNames, releaseNames] at hn hr
    exact ⟨by simp; tauto, by simp; tauto, ho, by simp; tauto, hs⟩
  · rintro ⟨hn, hm, ho, hr, hs⟩
    simp at hn hm hr
    refine ⟨?_, ho, ?_, hs⟩
    · simp [rungNames, releaseNames]; tauto
    · simp [rungNames, releaseNames]; tauto

end K3smApis.Budget
