import Mathlib.Data.List.Nodup
import Mathlib.Tactic

/-!
# Go strings, error texts and checks

A Go string is its bytes. An error text keeps the operands of its format verbs
apart, so `%q` needs no quoting here. A check is a Go function that returns an
error or nil; the lemmas below turn an accepting run of one into the facts it
established.
-/
namespace K3smApis

/-- A Go string: a sequence of bytes, UTF-8 only by convention. -/
abbrev GoString := List UInt8

instance GoString.lawfulBEq : LawfulBEq GoString := inferInstance

/-- The bytes of a Go string literal. -/
def lit (s : String) : GoString := s.toByteArray.data.toList

@[simp] theorem lit_inj {s t : String} : lit s = lit t ↔ s = t := by
  constructor
  · intro h
    apply String.toByteArray_inj.mp
    exact ByteArray.ext (Array.toList_inj.mp h)
  · rintro rfl
    rfl

@[simp] theorem lit_empty : lit "" = [] := rfl

theorem lit_eq_nil {s : String} : lit s = [] ↔ s = "" := by
  rw [← lit_empty, lit_inj]

namespace Ascii

def newline : UInt8 := 0x0a
def space : UInt8 := 0x20
def dash : UInt8 := 0x2d
def dot : UInt8 := 0x2e
def colon : UInt8 := 0x3a
def equals : UInt8 := 0x3d

end Ascii

/-- An ASCII letter in lower case, any other byte as it is. -/
def lowerByte (b : UInt8) : UInt8 := if 0x41 ≤ b ∧ b ≤ 0x5a then b + 0x20 else b

/-- A string with its ASCII letters in lower case. -/
def foldCase (p : GoString) : GoString := p.map lowerByte

/-- An ASCII letter or digit. -/
def isAlnum (c : UInt8) : Bool :=
  (0x61 ≤ c ∧ c ≤ 0x7a) ∨ (0x41 ≤ c ∧ c ≤ 0x5a) ∨ (0x30 ≤ c ∧ c ≤ 0x39)

/-- One operand of a formatted error text. -/
inductive Piece where
  | s (text : String)
  | str (value : GoString)
  | q (value : GoString)
  | d (value : ℤ)
  | t (value : Bool)
  deriving DecidableEq, Repr

/-- An error text as `fmt.Errorf` receives it: literal parts and operands. -/
abbrev Msg := List Piece

/-- A Go function that returns an error, or nil. -/
abbrev Check := Except Msg Unit

/-- A sequence succeeds when its first part does and the rest succeeds on its value. -/
theorem except_bind_ok {ε α β : Type} {x : Except ε α} {k : α → Except ε β} {b : β} :
    (x >>= k) = .ok b ↔ ∃ a, x = .ok a ∧ k a = .ok b := by
  cases x with
  | error e => simp [bind, Except.bind]
  | ok a => simp [bind, Except.bind]

namespace Check

/-- `if cond { return err }`. -/
def refuseIf {ε : Type} (cond : Prop) [Decidable cond] (e : ε) : Except ε Unit :=
  if cond then .error e else .ok ()

@[simp] theorem refuseIf_ok {ε : Type} {cond : Prop} [Decidable cond] {e : ε} :
    refuseIf cond e = .ok () ↔ ¬cond := by
  unfold refuseIf
  split_ifs with h <;> simp [h]

/-- `fmt.Errorf(label + "%w", err)`: an inner error under an outer label. -/
def within (label : Msg) (c : Check) : Check := c.mapError (label ++ ·)

@[simp] theorem within_ok {label : Msg} {c : Check} : within label c = .ok () ↔ c = .ok () := by
  cases c <;> simp [within, Except.mapError]

/-- A sequence that starts with a check succeeds when the check accepts and the
rest succeeds. -/
@[simp] theorem bind_ok {ε α : Type} {c : Except ε Unit} {k : Unit → Except ε α} {a : α} :
    (c >>= k) = .ok a ↔ c = .ok () ∧ k () = .ok a := by
  cases c with
  | error e => simp [bind, Except.bind]
  | ok u => simp [bind, Except.bind]

/-- A loop of checks with any kind of error succeeds when each check does. -/
theorem forM_ok {ε α : Type} {f : α → Except ε Unit} {l : List α} :
    l.forM f = .ok () ↔ ∀ a ∈ l, f a = .ok () := by
  induction l with
  | nil => simp [pure, Except.pure]
  | cons a l ih =>
    show (f a >>= fun _ => l.forM f) = .ok () ↔ _
    rw [bind_ok, List.forall_mem_cons, ih]

/-- A loop that checks each element in turn. -/
def forEach {α : Type*} (check : α → Check) : List α → Check
  | [] => .ok ()
  | a :: as => do check a; forEach check as

@[simp] theorem forEach_ok {α : Type*} {check : α → Check} {as : List α} :
    forEach check as = .ok () ↔ ∀ a ∈ as, check a = .ok () := by
  induction as with
  | nil => simp [forEach]
  | cons a as ih => simp [forEach, ih]

/-- A loop over a slice that refuses a repeated key. `before` runs ahead of the
repetition test and `after` behind it; `label i` opens every error of entry `i`. -/
def forEachDistinct {α κ : Type*} [DecidableEq κ] (label : ℕ → Msg) (before : α → Check)
    (key : α → κ) (repeated : α → Msg) (after : α → Check) : ℕ → List κ → List α → Check
  | _, _, [] => .ok ()
  | i, seen, a :: as => do
    within (label i) (before a)
    refuseIf (key a ∈ seen) (label i ++ repeated a)
    within (label i) (after a)
    forEachDistinct label before key repeated after (i + 1) (key a :: seen) as

theorem forEachDistinct_ok_seen {α κ : Type*} [DecidableEq κ] {label : ℕ → Msg}
    {before : α → Check} {key : α → κ} {repeated : α → Msg} {after : α → Check}
    (i : ℕ) (seen : List κ) (as : List α) :
    forEachDistinct label before key repeated after i seen as = .ok () ↔
      (∀ a ∈ as, before a = .ok () ∧ after a = .ok ()) ∧
        (as.map key).Nodup ∧ ∀ a ∈ as, key a ∉ seen := by
  induction as generalizing i seen with
  | nil => simp [forEachDistinct]
  | cons a as ih =>
    simp only [forEachDistinct, bind_ok, within_ok, refuseIf_ok, ih, List.mem_cons, not_or,
      List.map_cons, List.nodup_cons, List.mem_map, not_exists, not_and, forall_eq_or_imp]
    constructor
    · rintro ⟨hb, hs, ha, hall, hn, hseen⟩
      exact ⟨⟨⟨hb, ha⟩, hall⟩, ⟨fun x hx => (hseen x hx).1, hn⟩, hs, fun x hx => (hseen x hx).2⟩
    · rintro ⟨⟨⟨hb, ha⟩, hall⟩, ⟨hne, hn⟩, hs, hseen⟩
      exact ⟨hb, hs, ha, hall, hn, fun x hx => ⟨hne x hx, hseen x hx⟩⟩

/-- Started with nothing seen, the loop accepts exactly the slices whose entries
pass and whose keys are distinct. -/
@[simp] theorem forEachDistinct_ok {α κ : Type*} [DecidableEq κ] {label : ℕ → Msg}
    {before : α → Check} {key : α → κ} {repeated : α → Msg} {after : α → Check}
    (as : List α) :
    forEachDistinct label before key repeated after 0 [] as = .ok () ↔
      (∀ a ∈ as, before a = .ok () ∧ after a = .ok ()) ∧ (as.map key).Nodup := by
  rw [forEachDistinct_ok_seen]
  simp

end Check

end K3smApis
