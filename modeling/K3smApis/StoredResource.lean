import K3smApis.Schema
import Mathlib.Logic.Function.Basic

/-!
# Resources under an API server

What an API server does with the object of a request. A member that the schema does not name
is dropped; one that is absent, or null, takes its default; the result is checked against the
schema and, when it replaces a stored object, against the rules that compare the two. An
object here is a decoded one: it holds one value for each key, and an integer is written
without a fraction.
-/
namespace K3smApis.Schema
open GoJson

mutual

/-- The members a schema names below a value, with their defaults. -/
inductive Fill where
  | scalar
  | object (properties : Fill.Properties)

inductive Fill.Properties where
  | nil
  | property (name : String) (fallback : Option Json) (fill : Fill) (rest : Fill.Properties)

end

/-- Null counts as absent where a schema does not say `nullable`. -/
def unlessNull : Json → Option Json
  | .null => none
  | v => some v

/-- The value an object has under a name. -/
def given? (ms : List (GoString × Json)) (name : String) : Option Json :=
  (member? ms (lit name)).bind unlessNull

mutual

/-- Unknown members dropped and absent ones filled in, at every depth. -/
def Fill.apply : Fill → Json → Json
  | .object ps, .obj ms => .obj (ps.apply ms)
  | _, v => v

def Fill.Properties.apply : Fill.Properties → List (GoString × Json) → List (GoString × Json)
  | .nil, _ => []
  | .property name fallback fill rest, ms =>
    (((given? ms name).or fallback).map fun v => (lit name, fill.apply v)).toList ++ rest.apply ms

end

theorem Fill.apply_scalar (v : Json) : Fill.scalar.apply v = v := by
  rw [Fill.apply]
  simp

theorem Fill.apply_nil {ms : List (GoString × Json)} : Fill.Properties.nil.apply ms = [] := by
  rw [Fill.Properties.apply]

/-- A property with a default is always there. -/
theorem Fill.apply_default {name : String} {d : Json} {fill : Fill} {rest : Fill.Properties}
    {ms : List (GoString × Json)} :
    (Fill.Properties.property name (some d) fill rest).apply ms =
      (lit name, fill.apply ((given? ms name).getD d)) :: rest.apply ms := by
  rw [Fill.Properties.apply]
  cases given? ms name <;> rfl

/-- A property without one is there when it is given. -/
theorem Fill.apply_given {name : String} {fill : Fill} {rest : Fill.Properties}
    {ms : List (GoString × Json)} :
    (Fill.Properties.property name none fill rest).apply ms =
      ((given? ms name).map fun v => (lit name, fill.apply v)).toList ++ rest.apply ms := by
  rw [Fill.Properties.apply, Option.or_none]

theorem given?_encode {R : Type} {fs : Fields R} (hnames : fs.names.Nodup) {x : R}
    {name : String} :
    given? (fs.encode x) name = (fieldValue (lit name) fs x).bind unlessNull := by
  rw [given?, member?_encode hnames]

/-- The letters an expression mentions. -/
def letters {α : Type} : RegularExpression α → List α
  | .zero => []
  | .epsilon => []
  | .char a => [a]
  | .plus p q => letters p ++ letters q
  | .comp p q => letters p ++ letters q
  | .star p => letters p

/-- A match is made of the expression's letters. -/
theorem letters_of_match {α : Type} : (re : RegularExpression α) → {v : List α} →
    v ∈ re.matches' → ∀ a ∈ v, a ∈ letters re
  | .zero, _, h => absurd h (Language.notMem_zero _)
  | .epsilon, v, h => by
    rw [(Language.mem_one v).mp h]
    simp
  | .char b, v, h => by
    rw [Set.mem_singleton_iff.mp h]
    simp [letters]
  | .plus p q, v, h => fun a ha => by
    rw [letters, List.mem_append]
    exact h.imp (letters_of_match p · a ha) (letters_of_match q · a ha)
  | .comp p q, v, h => fun a ha => by
    obtain ⟨x, hx, y, hy, rfl⟩ := Language.mem_mul.mp h
    rw [letters, List.mem_append]
    exact (List.mem_append.mp ha).imp (letters_of_match p hx a) (letters_of_match q hy a)
  | .star p, v, h => fun a ha => by
    obtain ⟨parts, rfl, hparts⟩ := Language.mem_kstar.mp h
    obtain ⟨part, hpart, ha⟩ := List.mem_flatten.mp ha
    exact letters_of_match p (hparts part hpart) a ha

theorem of_accepts_boolean {v : Json} (h : Schema.boolean.accepts v = true) :
    ∃ b, v = .bool b := by
  cases v <;> simp [Schema.accepts] at h
  exact ⟨_, rfl⟩

theorem of_accepts_string {rules : StringRules} {v : Json}
    (h : (Schema.string rules).accepts v = true) : ∃ s, v = .str s ∧ rules.accepts s = true := by
  cases v <;> simp [Schema.accepts] at h
  exact ⟨_, rfl, h⟩

theorem of_accepts_integer {lo hi : Option ℤ} {v : Json}
    (h : (Schema.integer lo hi).accepts v = true) :
    ∃ t n, v = .num t ∧ Decimal.signed t = some n ∧ (∀ l ∈ lo, l ≤ n) ∧ ∀ u ∈ hi, n ≤ u := by
  cases v with
  | num t =>
    cases hparse : Decimal.signed t with
    | none => simp [Schema.accepts, hparse] at h
    | some n =>
      simp only [Schema.accepts, hparse, Bool.and_eq_true, Option.all_eq_true,
        decide_eq_true_iff] at h
      exact ⟨t, n, rfl, hparse, h⟩
  | null | bool | str | arr | obj => simp [Schema.accepts] at h

theorem of_accepts_object {required : List String} {ps : Properties} {rules : List Cel.Expr}
    {v : Json} (h : (Schema.object required ps rules).accepts v = true) :
    ∃ ms, v = .obj ms ∧ (∀ r ∈ required, (member? ms (lit r)).isSome = true) ∧
      ∀ m ∈ ms, ∀ s ∈ ps.find? m.1, s.accepts m.2 = true := by
  cases v with
  | obj ms =>
    simp only [Schema.accepts, Bool.and_eq_true, List.all_eq_true] at h
    refine ⟨ms, rfl, h.1.1, fun m hm => ?_⟩
    have hmember := h.1.2 m hm
    rwa [Properties.acceptsMember_eq, Option.all_eq_true] at hmember
  | null | bool | num | str | arr => simp [Schema.accepts] at h

/-- A filled object that is accepted was given as one, and its members are accepted. -/
theorem Fill.of_accepts_object {fps : Fill.Properties} {required : List String}
    {ps : Schema.Properties} {rules : List Cel.Expr} {v : Json}
    (h : (Schema.object required ps rules).accepts ((Fill.object fps).apply v) = true) :
    ∃ ms, v = .obj ms ∧ (∀ r ∈ required, (member? (fps.apply ms) (lit r)).isSome = true) ∧
      ∀ m ∈ fps.apply ms, ∀ s ∈ ps.find? m.1, s.accepts m.2 = true := by
  cases v with
  | obj ms =>
    rw [Fill.apply] at h
    obtain ⟨ms', heq, hmembers⟩ := Schema.of_accepts_object h
    cases heq
    exact ⟨ms, rfl, hmembers⟩
  | null | bool | num | str | arr => simp [Fill.apply, Schema.accepts] at h

/-- A rule over `self` and `oldSelf`, the new and the old value at a path. -/
structure Transition where
  path : List String
  rule : Cel.Expr

/-- The rule is evaluated where both objects have a value. -/
def Transition.allows (t : Transition) (old new : Json) : Bool :=
  (Cel.at? t.path old).all fun before => (Cel.at? t.path new).all fun after =>
    t.rule.holds (.obj [(lit "self", after), (lit "oldSelf", before)])

/-- A resource with a status subresource, as its definition describes it. -/
structure Resource where
  fill : Fill
  schema : Schema
  transitions : List Transition
  statusAccepts : Json → Bool

/-- The object the server stores for a request, unless it refuses it. -/
def Resource.admitted (r : Resource) (old : Option Json) (body : Json) : Option Json :=
  let v := r.fill.apply body
  if r.schema.accepts v && old.all (fun o => r.transitions.all (·.allows o v)) then some v
  else none

structure Stored where
  object : Json
  status : Json

/-- The stored objects by name. -/
abbrev Store := GoString → Option Stored

inductive Request where
  | create (name : GoString) (body : Json)
  /-- A replacement, or the result of a patch. -/
  | update (name : GoString) (body : Json)
  | updateStatus (name : GoString) (status : Json)
  | delete (name : GoString)

/-- The store after a request, unless it is refused. A write of the object leaves the status
alone, and a write of the status the object. -/
def Resource.serve (r : Resource) (st : Store) : Request → Option Store
  | .create name body =>
    if (st name).isSome then none
    else (r.admitted none body).map fun v => Function.update st name (some ⟨v, .null⟩)
  | .update name body =>
    (st name).bind fun s => (r.admitted (some s.object) body).map fun v =>
      Function.update st name (some { s with object := v })
  | .updateStatus name status =>
    (st name).bind fun s => if r.statusAccepts status then
      some (Function.update st name (some { s with status })) else none
  | .delete name => (st name).map fun _ => Function.update st name none

/-- A run: a refused request changes nothing. -/
def Resource.run (r : Resource) (st : Store) (qs : List Request) : Store :=
  qs.foldl (fun st q => (r.serve st q).getD st) st

theorem Resource.admitted_eq_some {r : Resource} {old : Option Json} {body v : Json} :
    r.admitted old body = some v ↔ v = r.fill.apply body ∧ r.schema.accepts v = true ∧
      ∀ o ∈ old, ∀ t ∈ r.transitions, t.allows o v = true := by
  rw [Resource.admitted]
  split_ifs with h
  · rw [Bool.and_eq_true, Option.all_eq_true] at h
    simp only [List.all_eq_true] at h
    constructor
    · rintro ⟨⟩
      exact ⟨rfl, h⟩
    · rintro ⟨rfl, -⟩
      rfl
  · refine ⟨fun hnone => absurd hnone (by simp), ?_⟩
    rintro ⟨rfl, haccepts, hallows⟩
    refine absurd ?_ h
    rw [Bool.and_eq_true, Option.all_eq_true]
    exact ⟨haccepts, fun o ho => List.all_eq_true.mpr (hallows o ho)⟩

/-- What a request can do to the object under a name. -/
inductive Resource.Moves (r : Resource) (q : Request) (name : GoString) :
    Option Json → Option Json → Prop where
  | stays (o : Option Json) : Moves r q name o o
  | creates {body v : Json} (h : r.admitted none body = some v) : Moves r q name none (some v)
  | replaces {o body v : Json} (h : r.admitted (some o) body = some v) :
      Moves r q name (some o) (some v)
  | deletes {o : Json} (h : q = .delete name) : Moves r q name (some o) none

/-- The object under a name. -/
def objectAt (st : Store) (name : GoString) : Option Json := (st name).map Stored.object

theorem objectAt_update {st : Store} {target name : GoString} {s : Option Stored} :
    objectAt (Function.update st target s) name =
      if name = target then s.map Stored.object else objectAt st name := by
  rw [objectAt, Function.update_apply]
  split_ifs <;> rfl

theorem Resource.serve_moves (r : Resource) (st : Store) (q : Request) (name : GoString) :
    r.Moves q name (objectAt st name) (objectAt ((r.serve st q).getD st) name) := by
  cases q with
  | create target body =>
    rw [Resource.serve]
    split_ifs with hthere
    · exact .stays _
    cases hadmitted : r.admitted none body with
    | none => exact .stays _
    | some v =>
      rw [Option.map_some, Option.getD_some, objectAt_update]
      split_ifs with hname
      · subst hname
        have hnone : objectAt st name = none := by
          rw [objectAt, Option.not_isSome_iff_eq_none.mp hthere]
          rfl
        rw [hnone]
        exact .creates hadmitted
      · exact .stays _
  | update target body =>
    rw [Resource.serve]
    cases hat : st target with
    | none => exact .stays _
    | some s =>
      rw [Option.bind_some]
      cases hadmitted : r.admitted (some s.object) body with
      | none => exact .stays _
      | some v =>
        rw [Option.map_some, Option.getD_some, objectAt_update]
        split_ifs with hname
        · subst hname
          rw [objectAt, hat]
          exact .replaces hadmitted
        · exact .stays _
  | updateStatus target status =>
    rw [Resource.serve]
    cases hat : st target with
    | none => exact .stays _
    | some s =>
      rw [Option.bind_some]
      split_ifs
      · rw [Option.getD_some, objectAt_update]
        split_ifs with hname
        · subst hname
          rw [objectAt, hat]
          exact .stays _
        · exact .stays _
      · exact .stays _
  | delete target =>
    rw [Resource.serve]
    cases hat : st target with
    | none => exact .stays _
    | some s =>
      rw [Option.map_some, Option.getD_some, objectAt_update]
      split_ifs with hname
      · subst hname
        rw [objectAt, hat]
        exact .deletes rfl
      · exact .stays _

section Runs

variable {r : Resource} {P : Json → Prop}

/-- What holds of every object the server admits holds of every stored one, after any run. -/
theorem Resource.run_invariant (hP : ∀ old body v, r.admitted old body = some v → P v) {st : Store}
    (hst : ∀ name, ∀ o ∈ objectAt st name, P o) (qs : List Request) (name : GoString) :
    ∀ o ∈ objectAt (r.run st qs) name, P o := by
  induction qs generalizing st with
  | nil => exact hst name
  | cons q qs ih =>
    refine ih fun name o ho => ?_
    have hmoves := r.serve_moves st q name
    rw [Option.mem_def.mp ho] at hmoves
    generalize hold : objectAt st name = old at hmoves
    cases hmoves with
    | stays => exact hst name o hold
    | creates h | replaces h => exact hP _ _ _ h

end Runs

end K3smApis.Schema
