import K3smApis.JsonTree
import K3smApis.StringMap
import Mathlib.Logic.Equiv.Defs

/-!
# encoding/json over Go types

A Go type is described as reflection shows it: structs by their fields with JSON names
and options, and each kind of value by how it encodes and decodes. Decoding works on the
value a variable already holds: a name that matches no field exactly matches one by
folding, a later member overwrites an earlier one, and null leaves most values as they
are. The reference decoder matches names exactly and looks each field up once.
-/
namespace K3smApis

namespace GoJson

/-- A type that is no pointer, slice, map or struct, or has JSON methods of its own. -/
structure Leaf (α : Type) where
  zero : α
  /-- What `omitempty` leaves out. -/
  isEmpty : α → Bool
  /-- What `omitzero` leaves out. -/
  isZero : α → Bool
  encode : α → Json
  /-- Decodes over the value held so far. -/
  decode : α → Json → Option α
  encode_distinct : ∀ x, (encode x).KeysDistinct

/-- The option of a field's JSON tag. -/
inductive Omit where
  | never | empty | zero
  deriving DecidableEq, Repr

mutual

/-- A Go type with values in `α`. -/
inductive GoType : Type → Type 1 where
  | leaf {α : Type} (l : Leaf α) : GoType α
  /-- `map[string]string`; `none` is nil. -/
  | stringMap : GoType (Option StringMap)
  | ptr {α : Type} (t : GoType α) : GoType (Option α)
  /-- A slice; `none` is nil. -/
  | slice {α : Type} (t : GoType α) : GoType (Option (List α))
  | struct {S R : Type} (fs : Fields R) (e : S ≃ R) : GoType S

/-- The fields of a struct, with values in `R`. -/
inductive Fields : Type → Type 1 where
  | nil : Fields Unit
  | field {α R : Type} (name : GoString) (option : Omit) (t : GoType α) (fs : Fields R) :
      Fields (α × R)
  /-- An embedded struct, whose fields encoding/json inlines. -/
  | embed {S E R : Type} (es : Fields E) (e : S ≃ E) (fs : Fields R) : Fields (S × R)

end

/-- The JSON names of the fields, those of embedded structs included. -/
def Fields.names : {R : Type} → Fields R → List GoString
  | _, .nil => []
  | _, .field name _ _ fs => name :: fs.names
  | _, .embed es _ fs => es.names ++ fs.names

mutual

/-- The zero value. -/
def GoType.zero : {α : Type} → GoType α → α
  | _, .leaf l => l.zero
  | _, .stringMap => none
  | _, .ptr _ => none
  | _, .slice _ => none
  | _, .struct fs e => e.symm fs.zero

def Fields.zero : {R : Type} → Fields R → R
  | _, .nil => ()
  | _, .field _ _ t fs => (t.zero, fs.zero)
  | _, .embed es e fs => (e.symm es.zero, fs.zero)

end

mutual

/-- The test of `omitzero`. -/
def GoType.isZero : {α : Type} → GoType α → α → Bool
  | _, .leaf l, x => l.isZero x
  | _, .stringMap, x => x.isNone
  | _, .ptr _, x => x.isNone
  | _, .slice _, x => x.isNone
  | _, .struct fs e, x => fs.isZero (e x)

def Fields.isZero : {R : Type} → Fields R → R → Bool
  | _, .nil, _ => true
  | _, .field _ _ t fs, x => t.isZero x.1 && fs.isZero x.2
  | _, .embed es e fs, x => es.isZero (e x.1) && fs.isZero x.2

end

/-- The test of `omitempty`. -/
def GoType.isEmpty : {α : Type} → GoType α → α → Bool
  | _, .leaf l, x => l.isEmpty x
  | _, .stringMap, x => (x.getD default).entries.isEmpty
  | _, .ptr _, x => x.isNone
  | _, .slice _, x => (x.getD []).isEmpty
  | _, .struct _ _, _ => false

/-- Whether a field is left out. -/
def Omit.omits {α : Type} (t : GoType α) (x : α) : Omit → Bool
  | .never => false
  | .empty => t.isEmpty x
  | .zero => t.isZero x

mutual

/-- `json.Marshal`. -/
def GoType.encode : {α : Type} → GoType α → α → Json
  | _, .leaf l, x => l.encode x
  | _, .stringMap, x =>
    match x with
    | none => .null
    | some m => .obj (m.entries.map (fun e => (e.1, .str e.2)))
  | _, .ptr t, x =>
    match x with
    | none => .null
    | some x => t.encode x
  | _, .slice t, x =>
    match x with
    | none => .null
    | some xs => .arr (xs.map t.encode)
  | _, .struct fs e, x => .obj (fs.encode (e x))

def Fields.encode : {R : Type} → Fields R → R → List (GoString × Json)
  | _, .nil, _ => []
  | _, .field name o t fs, x =>
    if o.omits t x.1 then fs.encode x.2 else (name, t.encode x.1) :: fs.encode x.2
  | _, .embed es e fs, x => es.encode (e x.1) ++ fs.encode x.2

end

/-- The field a name stands for: the one of that name, or else the first whose name folds
to the same. -/
def resolve (fold : GoString → GoString) (names : List GoString) (k : GoString) :
    Option GoString :=
  if k ∈ names then some k else names.find? (fun n => fold n = fold k)

/-- A value of a map's element type, string. -/
def mapValue : Json → Option GoString
  | .str s => some s
  | .null => some []
  | _ => none

/-- One member stored into a map. -/
def storeMember (m : StringMap) (kv : GoString × Json) : Option StringMap :=
  (mapValue kv.2).map (fun v => m.insert kv.1 v)

/-- An object decoded into a map: the entries it held stay. -/
def decodeMap (old : Option StringMap) : Json → Option (Option StringMap)
  | .null => some none
  | .obj ms => (ms.foldlM storeMember (old.getD default)).map some
  | _ => none

/-- The elements of an array, each over the element that stood there, or over `zero`. A slice
here ends with its elements: Go keeps the capacity of a slice that a shorter array was decoded
into, and a third array under the same key would be decoded over what is left there. -/
def decodeElements {α : Type} (decode : α → Json → Option α) (zero : α) :
    List α → List Json → Option (List α)
  | _, [] => some []
  | olds, v :: vs => do
    let x ← decode (olds.headD zero) v
    let xs ← decodeElements decode zero olds.tail vs
    some (x :: xs)

mutual

/-- `json.Unmarshal` into a variable that holds `old`, unknown fields disallowed; for a slice
that no object of the text names more than twice. -/
def GoType.decode (fold : GoString → GoString) :
    {α : Type} → GoType α → α → Json → Option α
  | _, .leaf l, old, v => l.decode old v
  | _, .stringMap, old, v => decodeMap old v
  | _, .ptr t, old, v =>
    match v with
    | .null => some none
    | v => (t.decode fold (old.getD t.zero) v).map some
  | _, .slice t, old, v =>
    match v with
    | .null => some none
    | .arr vs => (decodeElements (t.decode fold) t.zero (old.getD []) vs).map some
    | _ => none
  | _, .struct fs e, old, v =>
    match v with
    | .null => some old
    | .obj ms =>
      (ms.foldlM (fun x m => (resolve fold fs.names m.1).bind (fun n => fs.assign fold n m.2 x))
        (e old)).map e.symm
    | _ => none

/-- Decodes a member into the field of that name. -/
def Fields.assign (fold : GoString → GoString) :
    {R : Type} → Fields R → GoString → Json → R → Option R
  | _, .nil, _, _, _ => none
  | _, .field name _ t fs, n, v, x =>
    if n = name then (t.decode fold x.1 v).map (fun y => (y, x.2))
    else (fs.assign fold n v x.2).map (fun y => (x.1, y))
  | _, .embed es e fs, n, v, x =>
    if n ∈ es.names then (es.assign fold n v (e x.1)).map (fun y => (e.symm y, x.2))
    else (fs.assign fold n v x.2).map (fun y => (x.1, y))

end

/-- The value of a key, the first where the object repeats it. -/
def member? (ms : List (GoString × Json)) (k : GoString) : Option Json :=
  (ms.find? (fun m => m.1 = k)).map Prod.snd

mutual

/-- The decoder that matches names exactly and looks every field up once. -/
def GoType.refDecode : {α : Type} → GoType α → Json → Option α
  | _, .leaf l, v => l.decode l.zero v
  | _, .stringMap, v =>
    match v with
    | .null => some none
    | .obj ms => (ms.foldrM (fun kv m => storeMember m kv) default).map some
    | _ => none
  | _, .ptr t, v =>
    match v with
    | .null => some none
    | v => (t.refDecode v).map some
  | _, .slice t, v =>
    match v with
    | .null => some none
    | .arr vs => (vs.mapM t.refDecode).map some
    | _ => none
  | _, .struct fs e, v =>
    match v with
    | .null => some (e.symm fs.zero)
    | .obj ms => if ms.all (fun m => m.1 ∈ fs.names) then (fs.refDecode ms).map e.symm else none
    | _ => none

def Fields.refDecode : {R : Type} → Fields R → List (GoString × Json) → Option R
  | _, .nil, _ => some ()
  | _, .field name _ t fs, ms =>
    (((member? ms name).map t.refDecode).getD (some t.zero)).bind (fun x =>
      (fs.refDecode ms).map (fun xs => (x, xs)))
  | _, .embed es e fs, ms =>
    ((es.refDecode ms).map e.symm).bind (fun x => (fs.refDecode ms).map (fun xs => (x, xs)))

end

mutual

/-- Every object that maps to a struct names its fields exactly. -/
def GoType.ExactKeys : {α : Type} → GoType α → Json → Prop
  | _, .leaf _, _ => True
  | _, .stringMap, _ => True
  | _, .ptr t, v => t.ExactKeys v
  | _, .slice t, v =>
    match v with
    | .arr vs => ∀ w ∈ vs, t.ExactKeys w
    | _ => True
  | _, .struct fs _, v =>
    match v with
    | .obj ms => ∀ m ∈ ms, fs.ExactMember m
    | _ => True

def Fields.ExactMember : {R : Type} → Fields R → GoString × Json → Prop
  | _, .nil, _ => False
  | _, .field name _ t fs, m => if m.1 = name then t.ExactKeys m.2 else fs.ExactMember m
  | _, .embed es _ fs, m => if m.1 ∈ es.names then es.ExactMember m else fs.ExactMember m

end

mutual

/-- No struct has two fields of one name. -/
def GoType.NamesDistinct : {α : Type} → GoType α → Prop
  | _, .leaf _ => True
  | _, .stringMap => True
  | _, .ptr t => t.NamesDistinct
  | _, .slice t => t.NamesDistinct
  | _, .struct fs _ => fs.names.Nodup ∧ fs.NamesDistinct

def Fields.NamesDistinct : {R : Type} → Fields R → Prop
  | _, .nil => True
  | _, .field _ _ t fs => t.NamesDistinct ∧ fs.NamesDistinct
  | _, .embed es _ fs => es.NamesDistinct ∧ fs.NamesDistinct

end

mutual

def GoType.decideNamesDistinct : {α : Type} → (t : GoType α) → Decidable t.NamesDistinct
  | _, .leaf _ => .isTrue (by rw [GoType.NamesDistinct]; trivial)
  | _, .stringMap => .isTrue (by rw [GoType.NamesDistinct]; trivial)
  | _, .ptr t => @decidable_of_iff _ _ (by rw [GoType.NamesDistinct]) t.decideNamesDistinct
  | _, .slice t => @decidable_of_iff _ _ (by rw [GoType.NamesDistinct]) t.decideNamesDistinct
  | _, .struct fs _ =>
    @decidable_of_iff _ _ (by rw [GoType.NamesDistinct])
      (@instDecidableAnd _ _ inferInstance fs.decideNamesDistinct)

def Fields.decideNamesDistinct : {R : Type} → (fs : Fields R) → Decidable fs.NamesDistinct
  | _, .nil => .isTrue (by rw [Fields.NamesDistinct]; trivial)
  | _, .field _ _ t fs =>
    @decidable_of_iff _ _ (by rw [Fields.NamesDistinct])
      (@instDecidableAnd _ _ t.decideNamesDistinct fs.decideNamesDistinct)
  | _, .embed es _ fs =>
    @decidable_of_iff _ _ (by rw [Fields.NamesDistinct])
      (@instDecidableAnd _ _ es.decideNamesDistinct fs.decideNamesDistinct)

end

instance {α : Type} (t : GoType α) : Decidable t.NamesDistinct := t.decideNamesDistinct

theorem Fields.mem_names : {R : Type} → (fs : Fields R) → {m : GoString × Json} →
    fs.ExactMember m → m.1 ∈ fs.names
  | _, .nil, _, h => by rw [Fields.ExactMember] at h; exact h.elim
  | _, .field name _ t fs, m, h => by
    rw [Fields.ExactMember] at h
    rw [Fields.names, List.mem_cons]
    by_cases hm : m.1 = name
    · exact .inl hm
    · rw [if_neg hm] at h
      exact .inr (mem_names fs h)
  | _, .embed es _ fs, m, h => by
    rw [Fields.ExactMember] at h
    rw [Fields.names, List.mem_append]
    by_cases hm : m.1 ∈ es.names
    · exact .inl hm
    · rw [if_neg hm] at h
      exact .inr (mem_names fs h)

theorem member?_filter {p : GoString → Bool} {ms : List (GoString × Json)} {k : GoString}
    (h : p k = true) : member? (ms.filter (fun m => p m.1)) k = member? ms k := by
  have hsame : (fun m : GoString × Json => decide (p m.1 = true ∧ decide (m.1 = k) = true)) =
      fun m => decide (m.1 = k) := by
    funext m
    by_cases hm : m.1 = k
    · simp [hm, h]
    · simp [hm]
  rw [member?, List.find?_filter, hsame, member?]

/-- A reference decoding looks at nothing but the members its fields name. -/
theorem Fields.refDecode_congr : {R : Type} → (fs : Fields R) → {ms ms' : List (GoString × Json)} →
    (∀ n ∈ fs.names, member? ms n = member? ms' n) → fs.refDecode ms = fs.refDecode ms'
  | _, .nil, _, _, _ => by rw [Fields.refDecode, Fields.refDecode]
  | _, .field name _ t fs, ms, ms', h => by
    rw [Fields.names, List.forall_mem_cons] at h
    rw [Fields.refDecode, Fields.refDecode, h.1, refDecode_congr fs h.2]
  | _, .embed es _ fs, ms, ms', h => by
    rw [Fields.names, List.forall_mem_append] at h
    rw [Fields.refDecode, Fields.refDecode, refDecode_congr es h.1, refDecode_congr fs h.2]

/-- A fold whose steps each change one part of a pair is a fold over either part. -/
theorem foldlM_pair {α β γ : Type} (p : α → Bool) (f : β → α → Option β)
    (g : γ → α → Option γ) (l : List α) (b : β) (c : γ) :
    l.foldlM (fun s a => if p a then (f s.1 a).map (fun x => (x, s.2))
      else (g s.2 a).map (fun y => (s.1, y))) (b, c) =
      ((l.filter p).foldlM f b).bind (fun x =>
        ((l.filter (fun a => !p a)).foldlM g c).map (fun y => (x, y))) := by
  induction l generalizing b c with
  | nil => rfl
  | cons a l ih =>
    cases hp : p a with
    | true =>
      rw [List.filter_cons_of_pos hp, List.filter_cons_of_neg (by simp [hp]), List.foldlM_cons,
        List.foldlM_cons, if_pos hp]
      cases f b a with
      | none => rfl
      | some x => exact ih x c
    | false =>
      rw [List.filter_cons_of_neg (by simp [hp]), List.filter_cons_of_pos (by simp [hp]),
        List.foldlM_cons, List.foldlM_cons, if_neg (by simp [hp])]
      cases g c a with
      | none => cases (l.filter p).foldlM f b <;> rfl
      | some y => exact ih b y

theorem mem_of_member? {ms : List (GoString × Json)} {k : GoString} {v : Json}
    (h : member? ms k = some v) : (k, v) ∈ ms := by
  obtain ⟨m, hm, rfl⟩ := Option.map_eq_some_iff.mp h
  have hk : m.1 = k := by simpa using List.find?_some hm
  rw [← hk]
  exact List.mem_of_find?_eq_some hm

/-- The members of one key, when no key is repeated. -/
theorem filter_key {ms : List (GoString × Json)} (h : (ms.map Prod.fst).Nodup) (k : GoString) :
    ms.filter (fun m => m.1 = k) = ((member? ms k).map (fun v => (k, v))).toList := by
  induction ms with
  | nil => rfl
  | cons m ms ih =>
    obtain ⟨hm, hms⟩ := List.nodup_cons.mp h
    by_cases hk : m.1 = k
    · have hnone : ms.filter (fun m => m.1 = k) = [] := by
        rw [List.filter_eq_nil_iff]
        intro m' hm' heq
        have hmem := List.mem_map_of_mem (f := Prod.fst) hm'
        rw [of_decide_eq_true heq, ← hk] at hmem
        exact hm hmem
      rw [List.filter_cons_of_pos (by simpa using hk), hnone, member?,
        List.find?_cons_of_pos (by simpa using hk), ← hk]
      rfl
    · rw [List.filter_cons_of_neg (by simpa using hk), ih hms, member?, member?,
        List.find?_cons_of_neg (by simpa using hk)]

theorem member?_of_mem {ms : List (GoString × Json)} (h : (ms.map Prod.fst).Nodup)
    {m : GoString × Json} (hm : m ∈ ms) : member? ms m.1 = some m.2 := by
  have hmem : m ∈ ms.filter (fun n => n.1 = m.1) := List.mem_filter.mpr ⟨hm, by simp⟩
  rw [filter_key h] at hmem
  obtain ⟨v, hv, heq⟩ := Option.map_eq_some_iff.mp (Option.mem_toList.mp hmem)
  rw [hv, ← heq]

theorem foldlM_congr {α β : Type} {f g : β → α → Option β} {l : List α}
    (h : ∀ a ∈ l, ∀ b, f b a = g b a) (b : β) : l.foldlM f b = l.foldlM g b := by
  induction l generalizing b with
  | nil => rfl
  | cons a l ih =>
    obtain ⟨ha, hl⟩ := List.forall_mem_cons.mp h
    rw [List.foldlM_cons, List.foldlM_cons, ha b]
    cases g b a with
    | none => rfl
    | some b' => exact ih hl b'

/-- The elements of a nil slice are decoded into zero values. -/
theorem decodeElements_nil {α : Type} {decode : α → Json → Option α} {zero : α}
    {ref : Json → Option α} {vs : List Json} (h : ∀ v ∈ vs, decode zero v = ref v) :
    decodeElements decode zero [] vs = vs.mapM ref := by
  induction vs with
  | nil => rfl
  | cons v vs ih =>
    obtain ⟨hv, hvs⟩ := List.forall_mem_cons.mp h
    rw [decodeElements, List.mapM_cons, List.headD_nil, List.tail_nil, ih hvs, hv]
    rfl

/-- Members of other keys are stored alike before and after a key. -/
theorem foldrM_insert {ms : List (GoString × Json)} {k : GoString}
    (h : k ∉ ms.map Prod.fst) (v : GoString) (m : StringMap) :
    ms.foldrM (fun kv m => storeMember m kv) (m.insert k v) =
      (ms.foldrM (fun kv m => storeMember m kv) m).map (fun m => m.insert k v) := by
  induction ms with
  | nil => rfl
  | cons kv ms ih =>
    rw [List.map_cons, List.mem_cons, not_or] at h
    rw [List.foldrM_cons, List.foldrM_cons, ih h.2]
    cases ms.foldrM (fun kv m => storeMember m kv) m with
    | none => rfl
    | some m' =>
      show storeMember (m'.insert k v) kv = (storeMember m' kv).map (fun m => m.insert k v)
      unfold storeMember
      cases mapValue kv.2 with
      | none => rfl
      | some w => exact congrArg some (StringMap.insert_comm h.1)

/-- With no key repeated it does not matter in which order the members are stored. -/
theorem foldlM_storeMember {ms : List (GoString × Json)} (h : (ms.map Prod.fst).Nodup)
    (m : StringMap) :
    ms.foldlM storeMember m = ms.foldrM (fun kv m => storeMember m kv) m := by
  induction ms generalizing m with
  | nil => rfl
  | cons kv ms ih =>
    obtain ⟨hkv, hms⟩ := List.nodup_cons.mp h
    rw [List.foldlM_cons, List.foldrM_cons]
    cases hv : mapValue kv.2 with
    | none =>
      have hnone : ∀ m, storeMember m kv = none := fun m => by rw [storeMember, hv]; rfl
      simp only [hnone]
      cases ms.foldrM (fun kv m => storeMember m kv) m <;> rfl
    | some v =>
      have hsome : ∀ m, storeMember m kv = some (m.insert kv.1 v) :=
        fun m => by rw [storeMember, hv]; rfl
      simp only [hsome]
      show ms.foldlM storeMember (m.insert kv.1 v) = _
      rw [ih hms, foldrM_insert hkv]
      cases ms.foldrM (fun kv m => storeMember m kv) m <;> rfl

/-- A fold over values seen through an equivalence. -/
theorem foldlM_equiv {α S E : Type} (e : S ≃ E) (f : E → α → Option E) (l : List α) (x : E) :
    l.foldlM (fun s a => (f (e s) a).map e.symm) (e.symm x) = (l.foldlM f x).map e.symm := by
  induction l generalizing x with
  | nil => rfl
  | cons a l ih =>
    rw [List.foldlM_cons, List.foldlM_cons, Equiv.apply_symm_apply]
    cases f x a with
    | none => rfl
    | some y => exact ih y

section Agreement

variable {fold : GoString → GoString}

/-- What folding members into the fields `fs` is to give. -/
def Fields.FoldsToRef {R : Type} (fold : GoString → GoString) (fs : Fields R) : Prop :=
  ∀ ms : List (GoString × Json), (ms.map Prod.fst).Nodup → (∀ m ∈ ms, m.2.KeysDistinct) →
    (∀ m ∈ ms, fs.ExactMember m) →
    ms.foldlM (fun x m => fs.assign fold m.1 m.2 x) fs.zero = fs.refDecode ms

/-- The members of some keys, folded into the fields that have these names. -/
theorem Fields.FoldsToRef.filter {R : Type} {fs : Fields R} (h : fs.FoldsToRef fold)
    {ms : List (GoString × Json)} {p : GoString → Bool} (hkeys : (ms.map Prod.fst).Nodup)
    (hd : ∀ m ∈ ms, m.2.KeysDistinct) (he : ∀ m ∈ ms, p m.1 = true → fs.ExactMember m)
    (hp : ∀ n ∈ fs.names, p n = true) :
    (ms.filter (fun m => p m.1)).foldlM (fun x m => fs.assign fold m.1 m.2 x) fs.zero =
      fs.refDecode ms := by
  have hexact : ∀ m ∈ ms.filter (fun m => p m.1), fs.ExactMember m := by
    intro m hm
    obtain ⟨hmem, hpm⟩ := List.mem_filter.mp hm
    exact he m hmem hpm
  rw [h _ (hkeys.sublist (List.filter_sublist.map Prod.fst))
    (fun m hm => hd m (List.mem_of_mem_filter hm)) hexact]
  exact fs.refDecode_congr (fun n hn => member?_filter (hp n hn))

mutual

/-- On a value whose keys are exact and never repeated, decoding into a zero value gives
what the reference decoder gives. -/
theorem GoType.decode_eq_refDecode : {α : Type} → (t : GoType α) → {v : Json} →
    t.NamesDistinct → v.KeysDistinct → t.ExactKeys v → t.decode fold t.zero v = t.refDecode v
  | _, .leaf l, v, _, _, _ => by rw [GoType.decode, GoType.refDecode, GoType.zero]
  | _, .stringMap, v, _, hd, _ => by
    cases hd with
    | obj hkeys _ =>
      simp only [GoType.decode, GoType.refDecode, GoType.zero, decodeMap, Option.getD_none,
        foldlM_storeMember hkeys]
    | null | bool | num | str | arr => simp [GoType.decode, GoType.refDecode, decodeMap]
  | _, .ptr t, v, hn, hd, he => by
    rw [GoType.NamesDistinct] at hn
    rw [GoType.ExactKeys] at he
    have ih := GoType.decode_eq_refDecode t hn hd he
    cases v with
    | null => simp [GoType.decode, GoType.refDecode]
    | bool | num | str | arr | obj => simp [GoType.decode, GoType.refDecode, GoType.zero, ih]
  | _, .slice t, v, hn, hd, he => by
    rw [GoType.NamesDistinct] at hn
    cases hd with
    | @arr vs hvs =>
      simp only [GoType.ExactKeys] at he
      have ih : ∀ v ∈ vs, t.decode fold t.zero v = t.refDecode v :=
        fun v hv => GoType.decode_eq_refDecode t hn (hvs v hv) (he v hv)
      simp only [GoType.decode, GoType.refDecode, GoType.zero, Option.getD_none,
        decodeElements_nil ih]
    | null | bool | num | str | obj => simp [GoType.decode, GoType.refDecode]
  | _, .struct fs e, v, hn, hd, he => by
    rw [GoType.NamesDistinct] at hn
    cases hd with
    | @obj ms hkeys hms =>
      simp only [GoType.ExactKeys] at he
      have hresolve : ∀ m ∈ ms, ∀ x, ((resolve fold fs.names m.1).bind
          (fun n => fs.assign fold n m.2 x)) = fs.assign fold m.1 m.2 x := by
        intro m hm x
        rw [resolve, if_pos (fs.mem_names (he m hm))]
        rfl
      have hall : ms.all (fun m => m.1 ∈ fs.names) = true := by
        simpa using fun k v hm => fs.mem_names (he (k, v) hm)
      have ih := Fields.foldsToRef fs hn.1 hn.2 ms hkeys hms he
      simp only [GoType.decode, GoType.refDecode, GoType.zero, Equiv.apply_symm_apply,
        foldlM_congr hresolve, ih, hall, if_true]
    | null | bool | num | str | arr => simp [GoType.decode, GoType.refDecode, GoType.zero]

theorem Fields.foldsToRef : {R : Type} → (fs : Fields R) → fs.names.Nodup → fs.NamesDistinct →
    fs.FoldsToRef fold
  | _, .nil, _, _ => by
    intro ms _ _ he
    cases ms with
    | nil => rw [Fields.refDecode, Fields.zero]; rfl
    | cons m ms =>
      have hm := he m List.mem_cons_self
      rw [Fields.ExactMember] at hm
      exact hm.elim
  | _, .field name _ t fs, hnodup, hn => by
    intro ms hkeys hd he
    rw [Fields.names, List.nodup_cons] at hnodup
    rw [Fields.NamesDistinct] at hn
    simp only [Fields.ExactMember] at he
    -- the members of the first field, and those of the others
    have hfirst : (ms.filter (fun m => m.1 = name)).foldlM (fun x m => t.decode fold x m.2) t.zero =
        ((member? ms name).map t.refDecode).getD (some t.zero) := by
      rw [filter_key hkeys]
      cases hv : member? ms name with
      | none => rfl
      | some v =>
        have hmem := mem_of_member? hv
        have hexact := he _ hmem
        rw [if_pos rfl] at hexact
        exact (bind_pure (t.decode fold t.zero v)).trans
          (GoType.decode_eq_refDecode t hn.1 (hd _ hmem) hexact)
    have hothers := (Fields.foldsToRef fs hnodup.2 hn.2).filter hkeys hd
      (p := fun k => !decide (k = name))
      (fun m hm hne => by simpa [of_decide_eq_false (Bool.not_eq_true' _ ▸ hne)] using he m hm)
      (fun n hmem => by
        have hne : n ≠ name := fun h => hnodup.1 (h ▸ hmem)
        simp [hne])
    simp only [Fields.zero, Fields.assign, Fields.refDecode]
    rw [← hfirst, ← hothers, ← foldlM_pair]
    simp only [decide_eq_true_eq]
  | _, .embed es e fs, hnodup, hn => by
    intro ms hkeys hd he
    rw [Fields.names, List.nodup_append] at hnodup
    rw [Fields.NamesDistinct] at hn
    simp only [Fields.ExactMember] at he
    -- the members of the embedded struct, and those of the other fields
    have hinner := (Fields.foldsToRef es hnodup.1 hn.1).filter hkeys hd
      (p := fun k => decide (k ∈ es.names))
      (fun m hm hin => by simpa [of_decide_eq_true hin] using he m hm)
      (fun n hmem => by simpa using hmem)
    have hothers := (Fields.foldsToRef fs hnodup.2.1 hn.2).filter hkeys hd
      (p := fun k => !decide (k ∈ es.names))
      (fun m hm hout => by simpa [of_decide_eq_false (Bool.not_eq_true' _ ▸ hout)] using he m hm)
      (fun n hmem => by
        have hout : n ∉ es.names := fun h => hnodup.2.2 n h n hmem rfl
        simp [hout])
    simp only [Fields.zero, Fields.assign, Fields.refDecode]
    rw [← hinner, ← hothers, ← foldlM_equiv, ← foldlM_pair]
    simp only [decide_eq_true_eq, Option.map_map]
    rfl

end

end Agreement

end GoJson

end K3smApis
