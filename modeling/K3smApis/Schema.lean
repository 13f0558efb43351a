import K3smApis.Cel
import K3smApis.GoJsonEncode
import K3smApis.Rfc3339
import Mathlib.Computability.RegularExpressions

/-!
# Structural schemas

The OpenAPI schemas of custom resources, as an API server checks a value against them: types,
formats and bounds, the list types of Kubernetes, and rules over an object. An object is
checked member by member as it is written, and a member the schema does not name is dropped,
not refused. The second half says of a Go value when a schema accepts its encoding, with one
rule for each kind of type.
-/
namespace K3smApis

open GoJson

namespace Schema

/-- What a schema asks of a string. -/
structure StringRules where
  enum : Option (List String) := none
  /-- In code points. -/
  maxLength : Option ℕ := none
  /-- An expression over ASCII, which matches bytes as it matches code points. -/
  pattern : Option (RegularExpression UInt8) := none
  /-- `format: date-time`. -/
  dateTime : Bool := false

def StringRules.accepts (r : StringRules) (s : GoString) : Bool :=
  r.enum.all (fun words => Utf8.runes s ∈ words.map String.toList) &&
    r.maxLength.all (fun n => (Utf8.runes s).length ≤ n) &&
    r.pattern.all (fun p => p.rmatch s) &&
    (!r.dateTime || Rfc3339.isDateTime s)

/-- `x-kubernetes-list-type`. The items of a set and the keys of a map are scalars. -/
inductive ListType where
  | atomic
  | set
  | map (keys : List String)
  deriving Repr

/-- The key of an item, by the fields the list names. -/
def itemKey (keys : List String) (item : Json) : List (Option Cel.Scalar) :=
  keys.map (fun k => (Cel.at? [k] item).bind Cel.scalar?)

def ListType.accepts : ListType → List Json → Bool
  | .atomic, _ => true
  | .set, items => (items.map Cel.scalar?).Nodup
  | .map keys, items => (items.map (itemKey keys)).Nodup

end Schema

mutual

inductive Schema where
  | boolean
  /-- An integer of any size: a server drops the formats `int32` and `int64`. -/
  | integer (minimum maximum : Option ℤ)
  | string (rules : Schema.StringRules)
  | array (maxItems : ℕ) (listType : Schema.ListType) (items : Schema)
  /-- An object with `additionalProperties`. -/
  | map (maxProperties : ℕ) (values : Schema)
  | object (required : List String) (properties : Schema.Properties) (rules : List Cel.Expr)

inductive Schema.Properties where
  | nil
  | property (name : String) (schema : Schema) (rest : Schema.Properties)

end

namespace Schema

/-- The schema of a property. -/
def Properties.find? : Properties → GoString → Option Schema
  | .nil, _ => none
  | .property name s ps, k => if lit name = k then some s else ps.find? k

mutual

/-- Whether a schema accepts a value. -/
def accepts : Schema → Json → Bool
  | .boolean, .bool _ => true
  | .integer lo hi, .num t =>
    match Decimal.signed t with
    | some n => lo.all (· ≤ n) && hi.all (n ≤ ·)
    | none => false
  | .string rules, .str s => rules.accepts s
  | .array maxItems listType s, .arr vs =>
    vs.length ≤ maxItems && listType.accepts vs && vs.all (fun v => s.accepts v)
  | .map maxProperties s, .obj ms =>
    ms.length ≤ maxProperties && ms.all (fun m => s.accepts m.2)
  | .object required ps rules, .obj ms =>
    required.all (fun r => (member? ms (lit r)).isSome) &&
      ms.all (fun m => ps.acceptsMember m.1 m.2) && rules.all (fun e => e.holds (.obj ms))
  | _, _ => false

def Properties.acceptsMember : Properties → GoString → Json → Bool
  | .nil, _, _ => true
  | .property name s ps, k, v => if lit name = k then s.accepts v else ps.acceptsMember k v

end

theorem Properties.acceptsMember_eq : (ps : Properties) → (k : GoString) → (v : Json) →
    ps.acceptsMember k v = (ps.find? k).all (fun s => s.accepts v)
  | .nil, _, _ => rfl
  | .property name s ps, k, v => by
    rw [acceptsMember, find?]
    split_ifs
    · rfl
    · exact acceptsMember_eq ps k v

/-- The schema accepts a field, if it is encoded at all. -/
def FieldFits {α : Type} (o : Omit) (t : GoType α) (s : Schema) (x : α) : Prop :=
  o.omits t x = true ∨ s.accepts (t.encode x) = true

/-- Each field of a struct fits the property of its name. -/
def Fits (ps : Properties) : {R : Type} → Fields R → R → Prop
  | _, .nil, _ => True
  | _, .field name o t fs, x =>
    (∀ s ∈ ps.find? name, FieldFits o t s x.1) ∧ Fits ps fs x.2
  | _, .embed es e fs, x => Fits ps es (e x.1) ∧ Fits ps fs x.2

theorem fits_iff {ps : Properties} : {R : Type} → {fs : Fields R} → {x : R} →
    (∀ m ∈ fs.encode x, ps.acceptsMember m.1 m.2 = true) ↔ Fits ps fs x
  | _, .nil, _ => by simp [Fields.encode, Fits]
  | _, .field name o t fs, x => by
    have hfield : ps.acceptsMember name (t.encode x.1) = true ↔
        ∀ s ∈ ps.find? name, s.accepts (t.encode x.1) = true := by
      rw [Properties.acceptsMember_eq, Option.all_eq_true]
      rfl
    rw [Fields.encode, Fits]
    split_ifs with homit
    · rw [fits_iff]
      exact (and_iff_right fun _ _ => .inl homit).symm
    · rw [List.forall_mem_cons, fits_iff, hfield]
      simp only [FieldFits, homit, false_or, Bool.false_eq_true]
  | _, .embed es e fs, x => by
    rw [Fields.encode, Fits, List.forall_mem_append, fits_iff, fits_iff]

section Struct

variable {S R : Type} {fs : Fields R} {e : S ≃ R} {x : S} {ps : Properties}

/-- The encoding of a struct. -/
theorem accepts_struct {ms : List (GoString × Json)}
    (hms : (GoType.struct fs e).encode x = .obj ms) {required : List String}
    {rules : List Cel.Expr} :
    (Schema.object required ps rules).accepts ((GoType.struct fs e).encode x) = true ↔
      (∀ r ∈ required, (member? ms (lit r)).isSome = true) ∧ Fits ps fs (e x) ∧
        ∀ r ∈ rules, r.holds (.obj ms) = true := by
  have hfits : (∀ m ∈ ms, ps.acceptsMember m.1 m.2 = true) ↔ Fits ps fs (e x) := by
    rw [GoType.encode] at hms
    rw [← fits_iff, Json.obj.inj hms]
  rw [hms, accepts, Bool.and_eq_true, Bool.and_eq_true, List.all_eq_true, List.all_eq_true,
    List.all_eq_true, hfits, and_assoc]

theorem accepts_plainStruct :
    (Schema.object [] ps []).accepts ((GoType.struct fs e).encode x) = true ↔ Fits ps fs (e x) := by
  rw [accepts_struct rfl]
  simp

end Struct

/-- The value a struct's encoding has under a name. -/
def fieldValue (k : GoString) : {R : Type} → Fields R → R → Option Json
  | _, .nil, _ => none
  | _, .field name o t fs, x =>
    if name = k then (if o.omits t x.1 then none else some (t.encode x.1))
    else fieldValue k fs x.2
  | _, .embed es e fs, x => (fieldValue k es (e x.1)).or (fieldValue k fs x.2)

theorem member?_encode {k : GoString} : {R : Type} → {fs : Fields R} → fs.names.Nodup → {x : R} →
    member? (fs.encode x) k = fieldValue k fs x
  | _, .nil, _, _ => rfl
  | _, .field name o t fs, hnames, x => by
    rw [Fields.names, List.nodup_cons] at hnames
    have hrest := member?_encode hnames.2 (k := k) (x := x.2)
    rw [Fields.encode, fieldValue]
    by_cases hk : name = k
    · subst hk
      have habsent : member? (fs.encode x.2) name = none :=
        member?_eq_none fun m hm heq => hnames.1 (heq ▸ Fields.mem_names_of_mem_encode hm)
      rw [if_pos rfl]
      split_ifs
      · exact habsent
      · simp [member?]
    · rw [if_neg hk, ← hrest]
      split_ifs
      · rfl
      · simp [member?, hk]
  | _, .embed es e fs, hnames, x => by
    rw [Fields.names, List.nodup_append] at hnames
    rw [Fields.encode, fieldValue, member?_append, member?_encode hnames.1,
      member?_encode hnames.2.1]

/-- A struct that encodes every required field. -/
theorem accepts_required {S R : Type} {fs : Fields R} {e : S ≃ R} {x : S} {ps : Properties}
    {required : List String} (hnames : fs.names.Nodup)
    (hrequired : required.all (fun r => (fieldValue (lit r) fs (e x)).isSome) = true) :
    (Schema.object required ps []).accepts ((GoType.struct fs e).encode x) = true ↔
      Fits ps fs (e x) := by
  have hpresent : ∀ r ∈ required, (member? (fs.encode (e x)) (lit r)).isSome = true := by
    intro r hr
    rw [member?_encode hnames]
    exact List.all_eq_true.mp hrequired r hr
  rw [accepts_struct rfl, and_iff_right hpresent, and_iff_left fun _ h => absurd h List.not_mem_nil]

/-- A pointer that is left out when it is nil. -/
theorem value_ptr {α : Type} {t : GoType α} {x : Option α} :
    (if Omit.empty.omits (.ptr t) x then none else some ((GoType.ptr t).encode x)) =
      x.map t.encode := by
  cases x <;> simp [Omit.omits, GoType.isEmpty, GoType.encode]

theorem fits_never {α : Type} {t : GoType α} {s : Schema} {x : α} :
    FieldFits .never t s x ↔ s.accepts (t.encode x) = true := by
  simp [FieldFits, Omit.omits]

theorem fits_zero {α : Type} {t : GoType α} {s : Schema} {x : α} :
    FieldFits .zero t s x ↔ t.isZero x = true ∨ s.accepts (t.encode x) = true := Iff.rfl

theorem fits_ptr {α : Type} {t : GoType α} {s : Schema} {x : Option α} :
    FieldFits .empty (.ptr t) s x ↔ ∀ y ∈ x, s.accepts (t.encode y) = true := by
  cases x <;> simp [FieldFits, Omit.omits, GoType.isEmpty, GoType.encode]

theorem accepts_array {maxItems : ℕ} {listType : ListType} {s : Schema} {vs : List Json} :
    (Schema.array maxItems listType s).accepts (.arr vs) = true ↔
      vs.length ≤ maxItems ∧ listType.accepts vs = true ∧ ∀ v ∈ vs, s.accepts v = true := by
  rw [accepts, Bool.and_eq_true, Bool.and_eq_true, decide_eq_true_iff, List.all_eq_true, and_assoc]

/-- An empty list is left out, and would be accepted. -/
theorem fits_slice {α : Type} {t : GoType α} {maxItems : ℕ} {listType : ListType} {s : Schema}
    {xs : Option (List α)} :
    FieldFits .empty (.slice t) (.array maxItems listType s) xs ↔
      (xs.getD []).length ≤ maxItems ∧
        listType.accepts ((xs.getD []).map t.encode) = true ∧
        ∀ x ∈ xs.getD [], s.accepts (t.encode x) = true := by
  have hempty : listType.accepts [] = true := by cases listType <;> rfl
  rcases xs with _ | ⟨_ | ⟨x, xs⟩⟩
  · simp [FieldFits, Omit.omits, GoType.isEmpty, hempty]
  · simp [FieldFits, Omit.omits, GoType.isEmpty, hempty]
  · simp only [FieldFits, Omit.omits, GoType.isEmpty, GoType.encode, accepts_array,
      Option.getD_some, List.isEmpty_cons, Bool.false_eq_true, false_or, List.length_map,
      List.forall_mem_map]

/-- A list is a map when the keys that tell its values apart are distinct. -/
theorem listMap_accepts {α κ : Type} {t : GoType α} {keys : List String} {key : α → κ}
    {xs : List α} (h : ∀ x ∈ xs, ∀ y ∈ xs,
      itemKey keys (t.encode x) = itemKey keys (t.encode y) ↔ key x = key y) :
    (ListType.map keys).accepts (xs.map t.encode) = true ↔ (xs.map key).Nodup := by
  rw [ListType.accepts, decide_eq_true_iff, List.map_map, List.Nodup, List.Nodup, List.pairwise_map,
    List.pairwise_map]
  exact List.Pairwise.iff_of_mem fun hx hy => (h _ hx _ hy).not

/-- A list is a set when its values are distinct. -/
theorem listSet_accepts {α : Type} {t : GoType α} {xs : List α} (h : ∀ x ∈ xs, ∀ y ∈ xs,
    Cel.scalar? (t.encode x) = Cel.scalar? (t.encode y) ↔ x = y) :
    ListType.set.accepts (xs.map t.encode) = true ↔ xs.Nodup := by
  rw [ListType.accepts, decide_eq_true_iff, List.map_map, List.Nodup, List.pairwise_map]
  exact List.Pairwise.iff_of_mem fun hx hy => (h _ hx _ hy).not

theorem fits_stringMap {maxProperties : ℕ} {s : Schema} {m : Option StringMap} :
    FieldFits .empty .stringMap (.map maxProperties s) m ↔
      (m.getD default).entries.length ≤ maxProperties ∧
        ∀ e ∈ (m.getD default).entries, s.accepts (.str e.2) = true := by
  rcases m with _ | m
  · simp [FieldFits, Omit.omits, GoType.isEmpty, show (default : StringMap).entries = [] from rfl]
  · by_cases hm : m.entries = []
    · simp [FieldFits, Omit.omits, GoType.isEmpty, hm]
    · simp only [FieldFits, Omit.omits, GoType.isEmpty, GoType.encode, accepts, Option.getD_some,
        List.isEmpty_iff, hm, false_or, Bool.and_eq_true, decide_eq_true_iff, List.length_map,
        List.all_eq_true, List.forall_mem_map]

end Schema

end K3smApis
