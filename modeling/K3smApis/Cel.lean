import K3smApis.GoJson
import K3smApis.Utf8

/-!
# Validation rules in the Common Expression Language

The expressions the rules of a schema are written in: fields of `self`, presence tests,
comparisons and connectives. An evaluation may fail, on a field that is absent or a value of
another type, and `||` and `&&` absorb the failure of one side when the other side decides
the result. A rule holds of a value when it evaluates to true.
-/
namespace K3smApis

namespace Cel
open GoJson

/-- The values rules compare. -/
inductive Scalar where
  | bool (b : Bool)
  | int (n : ℤ)
  | str (t : Text)
  deriving DecidableEq, Repr

/-- The scalar of a JSON value. The text of a string is what a reader of the JSON gets: code
points, with U+FFFD for bytes that are not UTF-8. -/
def scalar? : Json → Option Scalar
  | .bool b => some (.bool b)
  | .num t => (Decimal.parseInt 64 t).map .int
  | .str s => some (.str (Utf8.runes s))
  | _ => none

/-- The value at the end of a path of field names. -/
def at? : List String → Json → Option Json
  | [], v => some v
  | n :: ns, .obj ms => (member? ms (lit n)).bind (at? ns)
  | _ :: _, _ => none

inductive Expr where
  | text (s : String)
  /-- `self.a.b`. -/
  | field (path : List String)
  /-- `has(self.a.b)`: the path to the object, and the name looked up in it. -/
  | has (path : List String) (name : String)
  | not (a : Expr)
  | or (a b : Expr)
  | and (a b : Expr)
  /-- `c ? a : b`. -/
  | cond (c a b : Expr)
  | eq (a b : Expr)
  | ne (a b : Expr)
  | lt (a b : Expr)
  | gt (a b : Expr)
  | endsWith (a : Expr) (s : String)
  /-- `a in [s, t]`. -/
  | isIn (a : Expr) (texts : List String)
  deriving Repr

/-- `||`: true wins over a failure. -/
def disjoin : Option Scalar → Option Scalar → Option Scalar
  | some (.bool true), _ => some (.bool true)
  | _, some (.bool true) => some (.bool true)
  | some (.bool false), some (.bool false) => some (.bool false)
  | _, _ => none

/-- `&&`: false wins over a failure. -/
def conjoin : Option Scalar → Option Scalar → Option Scalar
  | some (.bool false), _ => some (.bool false)
  | _, some (.bool false) => some (.bool false)
  | some (.bool true), some (.bool true) => some (.bool true)
  | _, _ => none

/-- `!`. -/
def negate : Option Scalar → Option Scalar
  | some (.bool b) => some (.bool !b)
  | _ => none

/-- `c ? a : b`: a failure of the side not taken does not matter. -/
def choose : Option Scalar → Option Scalar → Option Scalar → Option Scalar
  | some (.bool true), x, _ => x
  | some (.bool false), _, y => y
  | _, _, _ => none

/-- A test of two values of any type. -/
def relate (test : Scalar → Scalar → Bool) : Option Scalar → Option Scalar → Option Scalar
  | some x, some y => some (.bool (test x y))
  | _, _ => none

/-- A comparison of two integers. -/
def compare (test : ℤ → ℤ → Bool) : Option Scalar → Option Scalar → Option Scalar
  | some (.int a), some (.int b) => some (.bool (test a b))
  | _, _ => none

/-- A test of a text. -/
def testText (test : Text → Bool) : Option Scalar → Option Scalar
  | some (.str t) => some (.bool (test t))
  | _ => none

/-- `has(…)` of an object; anything else has no members to ask for. -/
def present (name : String) : Option Json → Option Scalar
  | some (.obj ms) => some (.bool (member? ms (lit name)).isSome)
  | _ => none

/-- The value of an expression, or a failure. -/
def eval (self : Json) : Expr → Option Scalar
  | .text s => some (.str s.toList)
  | .field path => (at? path self).bind scalar?
  | .has path name => present name (at? path self)
  | .not a => negate (eval self a)
  | .or a b => disjoin (eval self a) (eval self b)
  | .and a b => conjoin (eval self a) (eval self b)
  | .cond c a b => choose (eval self c) (eval self a) (eval self b)
  | .eq a b => relate (fun x y => x = y) (eval self a) (eval self b)
  | .ne a b => relate (fun x y => x ≠ y) (eval self a) (eval self b)
  | .lt a b => compare (fun x y => x < y) (eval self a) (eval self b)
  | .gt a b => compare (fun x y => y < x) (eval self a) (eval self b)
  | .endsWith a s => testText (s.toList.isSuffixOf ·) (eval self a)
  | .isIn a texts => testText (fun t => t ∈ texts.map String.toList) (eval self a)

/-- Whether a rule accepts a value. -/
def Expr.holds (e : Expr) (self : Json) : Bool := eval self e = some (.bool true)

theorem disjoin_true {x y : Option Scalar} : disjoin x y = some (.bool true) ↔
    x = some (.bool true) ∨ y = some (.bool true) := by
  rcases x with _ | ⟨⟨_ | _⟩ | _ | _⟩ <;> rcases y with _ | ⟨⟨_ | _⟩ | _ | _⟩ <;> simp [disjoin]

theorem conjoin_true {x y : Option Scalar} : conjoin x y = some (.bool true) ↔
    x = some (.bool true) ∧ y = some (.bool true) := by
  rcases x with _ | ⟨⟨_ | _⟩ | _ | _⟩ <;> rcases y with _ | ⟨⟨_ | _⟩ | _ | _⟩ <;> simp [conjoin]

section Rules

variable {self : Json} {a b c : Expr}

theorem eval_or : eval self (.or a b) = disjoin (eval self a) (eval self b) := rfl

theorem eval_and : eval self (.and a b) = conjoin (eval self a) (eval self b) := rfl

theorem eval_cond {d : Bool} (hc : eval self c = some (.bool d)) :
    eval self (.cond c a b) = if d then eval self a else eval self b := by
  change choose (eval self c) _ _ = _
  rw [hc]
  cases d <;> rfl

theorem eval_not {d : Bool} (ha : eval self a = some (.bool d)) :
    eval self (.not a) = some (.bool !d) := by
  change negate (eval self a) = _
  rw [ha]
  rfl

theorem eval_eq {x y : Scalar} (ha : eval self a = some x) (hb : eval self b = some y) :
    eval self (.eq a b) = some (.bool (decide (x = y))) := by
  change relate _ (eval self a) (eval self b) = _
  rw [ha, hb]
  rfl

theorem eval_ne {x y : Scalar} (ha : eval self a = some x) (hb : eval self b = some y) :
    eval self (.ne a b) = some (.bool (decide (x ≠ y))) := by
  change relate _ (eval self a) (eval self b) = _
  rw [ha, hb]
  rfl

theorem eval_lt {m n : ℤ} (ha : eval self a = some (.int m)) (hb : eval self b = some (.int n)) :
    eval self (.lt a b) = some (.bool (decide (m < n))) := by
  change compare _ (eval self a) (eval self b) = _
  rw [ha, hb]
  rfl

theorem eval_gt {m n : ℤ} (ha : eval self a = some (.int m)) (hb : eval self b = some (.int n)) :
    eval self (.gt a b) = some (.bool (decide (n < m))) := by
  change compare _ (eval self a) (eval self b) = _
  rw [ha, hb]
  rfl

theorem eval_endsWith {t : Text} {s : String} (ha : eval self a = some (.str t)) :
    eval self (.endsWith a s) = some (.bool (s.toList.isSuffixOf t)) := by
  change testText _ (eval self a) = _
  rw [ha]
  rfl

theorem holds_iff : a.holds self = true ↔ eval self a = some (.bool true) := decide_eq_true_iff

/-- A rule that evaluates to a boolean holds when it is true. -/
theorem holds_of_eval {d : Bool} (h : eval self a = some (.bool d)) : a.holds self = d := by
  rw [Expr.holds, h]
  cases d <;> rfl

@[simp] theorem holds_or : (Expr.or a b).holds self = true ↔
    a.holds self = true ∨ b.holds self = true := by
  rw [holds_iff, holds_iff, holds_iff, eval_or, disjoin_true]

@[simp] theorem holds_and : (Expr.and a b).holds self = true ↔
    a.holds self = true ∧ b.holds self = true := by
  rw [holds_iff, holds_iff, holds_iff, eval_and, conjoin_true]

theorem holds_cond {d : Bool} (hc : eval self c = some (.bool d)) :
    (Expr.cond c a b).holds self = if d then a.holds self else b.holds self := by
  rw [Expr.holds, eval_cond hc]
  cases d <;> rfl

theorem holds_not {d : Bool} (ha : eval self a = some (.bool d)) :
    (Expr.not a).holds self = !d :=
  holds_of_eval (eval_not ha)

theorem holds_lt {m n : ℤ} (ha : eval self a = some (.int m)) (hb : eval self b = some (.int n)) :
    (Expr.lt a b).holds self = true ↔ m < n := by
  rw [holds_of_eval (eval_lt ha hb), decide_eq_true_iff]

theorem holds_gt {m n : ℤ} (ha : eval self a = some (.int m)) (hb : eval self b = some (.int n)) :
    (Expr.gt a b).holds self = true ↔ n < m := by
  rw [holds_of_eval (eval_gt ha hb), decide_eq_true_iff]

theorem holds_eq {x y : Scalar} (ha : eval self a = some x) (hb : eval self b = some y) :
    (Expr.eq a b).holds self = true ↔ x = y := by
  rw [holds_of_eval (eval_eq ha hb), decide_eq_true_iff]

theorem holds_ne {x y : Scalar} (ha : eval self a = some x) (hb : eval self b = some y) :
    (Expr.ne a b).holds self = true ↔ x ≠ y := by
  rw [holds_of_eval (eval_ne ha hb), decide_eq_true_iff]

end Rules

section Members

variable {ms : List (GoString × Json)} {name : String}

theorem eval_has : eval (.obj ms) (.has [] name) = some (.bool (member? ms (lit name)).isSome) :=
  rfl

@[simp] theorem holds_has :
    (Expr.has [] name).holds (.obj ms) = (member? ms (lit name)).isSome :=
  holds_of_eval eval_has

@[simp] theorem holds_not_has :
    (Expr.not (.has [] name)).holds (.obj ms) = (member? ms (lit name)).isNone := by
  rw [holds_not eval_has, Option.not_isSome]

theorem at?_one : at? [name] (.obj ms) = member? ms (lit name) := by
  change (member? ms (lit name)).bind _ = _
  cases member? ms (lit name) <;> rfl

theorem eval_field : eval (.obj ms) (.field [name]) = (member? ms (lit name)).bind scalar? := by
  change (at? [name] (.obj ms)).bind scalar? = _
  rw [at?_one]

/-- A field of a member that is an object. -/
theorem at?_member {ks : List (GoString × Json)} (h : member? ms (lit name) = some (.obj ks))
    (k : String) : at? [name, k] (.obj ms) = member? ks (lit k) := by
  change (member? ms (lit name)).bind (at? [k]) = _
  rw [h, Option.bind_some, at?_one]

theorem eval_has_member {ks : List (GoString × Json)} (h : member? ms (lit name) = some (.obj ks))
    (k : String) :
    eval (.obj ms) (.has [name] k) = some (.bool (member? ks (lit k)).isSome) := by
  change present k (at? [name] (.obj ms)) = _
  rw [at?_one, h]
  rfl

/-- A text in a member that is an object. -/
theorem eval_field_member {ks : List (GoString × Json)} {k : String} {s : GoString}
    (h : member? ms (lit name) = some (.obj ks)) (hk : member? ks (lit k) = some (.str s)) :
    eval (.obj ms) (.field [name, k]) = some (.str (Utf8.runes s)) := by
  change (at? [name, k] (.obj ms)).bind scalar? = _
  rw [at?_member h, hk]
  rfl

end Members

end Cel

end K3smApis
