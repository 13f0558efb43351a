import K3smApis.GoJson

/-!
# What encoding/json writes

An encoded value names every field exactly and repeats no key, so decoding it is reference
decoding. `Encodes t x y n` collects what a caller wants of an encoding: it is text the
parser reads back, it holds at most `n` bytes, and it decodes to `y`. One rule for each
kind of type builds it up from the leaves.
-/
namespace K3smApis

namespace GoJson

theorem Fields.encode_sublist : {R : Type} → (fs : Fields R) → (x : R) →
    ((fs.encode x).map Prod.fst).Sublist fs.names
  | _, .nil, _ => by rw [Fields.encode, Fields.names]; exact .slnil
  | _, .field name o t fs, x => by
    rw [Fields.encode, Fields.names]
    split_ifs
    · exact (encode_sublist fs x.2).cons name
    · exact (encode_sublist fs x.2).cons_cons name
  | _, .embed es e fs, x => by
    rw [Fields.encode, Fields.names, List.map_append]
    exact (encode_sublist es (e x.1)).append (encode_sublist fs x.2)

theorem Fields.mem_names_of_mem_encode {R : Type} {fs : Fields R} {x : R} {m : GoString × Json}
    (h : m ∈ fs.encode x) : m.1 ∈ fs.names :=
  (fs.encode_sublist x).subset (List.mem_map_of_mem h)

mutual

theorem GoType.encode_keysDistinct : {α : Type} → (t : GoType α) → t.NamesDistinct → (x : α) →
    (t.encode x).KeysDistinct
  | _, .leaf l, _, x => by rw [GoType.encode]; exact l.encode_distinct x
  | _, .stringMap, _, x => by
    cases x with
    | none => simp only [GoType.encode]; exact .null
    | some m =>
      simp only [GoType.encode]
      refine .obj ?_ ?_
      · rw [List.map_map]
        exact m.keys_distinct
      · rintro kv hkv
        obtain ⟨e, -, rfl⟩ := List.mem_map.mp hkv
        exact .str _
  | _, .ptr t, hn, x => by
    rw [GoType.NamesDistinct] at hn
    cases x with
    | none => simp only [GoType.encode]; exact .null
    | some y => simp only [GoType.encode]; exact GoType.encode_keysDistinct t hn y
  | _, .slice t, hn, x => by
    rw [GoType.NamesDistinct] at hn
    cases x with
    | none => simp only [GoType.encode]; exact .null
    | some ys =>
      simp only [GoType.encode]
      refine .arr ?_
      intro v hv
      obtain ⟨y, -, rfl⟩ := List.mem_map.mp hv
      exact GoType.encode_keysDistinct t hn y
  | _, .struct fs e, hn, x => by
    rw [GoType.NamesDistinct] at hn
    rw [GoType.encode]
    exact .obj (hn.1.sublist (fs.encode_sublist _)) (Fields.encode_keysDistinct fs hn.2 _)

theorem Fields.encode_keysDistinct : {R : Type} → (fs : Fields R) → fs.NamesDistinct → (x : R) →
    ∀ m ∈ fs.encode x, m.2.KeysDistinct
  | _, .nil, _, x => by rw [Fields.encode]; simp
  | _, .field name o t fs, hn, x => by
    rw [Fields.NamesDistinct] at hn
    have ih := Fields.encode_keysDistinct fs hn.2 x.2
    rw [Fields.encode]
    split_ifs
    · exact ih
    · exact List.forall_mem_cons.mpr ⟨GoType.encode_keysDistinct t hn.1 x.1, ih⟩
  | _, .embed es e fs, hn, x => by
    rw [Fields.NamesDistinct] at hn
    rw [Fields.encode]
    exact List.forall_mem_append.mpr ⟨Fields.encode_keysDistinct es hn.1 _,
      Fields.encode_keysDistinct fs hn.2 _⟩

end

theorem GoType.exactKeys_null : {α : Type} → (t : GoType α) → t.ExactKeys .null
  | _, .leaf _ => by rw [GoType.ExactKeys]; trivial
  | _, .stringMap => by rw [GoType.ExactKeys]; trivial
  | _, .ptr t => by rw [GoType.ExactKeys]; exact exactKeys_null t
  | _, .slice _ => by simp [GoType.ExactKeys]
  | _, .struct _ _ => by simp [GoType.ExactKeys]

mutual

theorem GoType.encode_exactKeys : {α : Type} → (t : GoType α) → t.NamesDistinct → (x : α) →
    t.ExactKeys (t.encode x)
  | _, .leaf l, _, x => by rw [GoType.ExactKeys]; trivial
  | _, .stringMap, _, x => by rw [GoType.ExactKeys]; trivial
  | _, .ptr t, hn, x => by
    rw [GoType.NamesDistinct] at hn
    rw [GoType.ExactKeys]
    cases x with
    | none => simp only [GoType.encode]; exact t.exactKeys_null
    | some y => simp only [GoType.encode]; exact GoType.encode_exactKeys t hn y
  | _, .slice t, hn, x => by
    rw [GoType.NamesDistinct] at hn
    cases x with
    | none => simp only [GoType.encode]; exact GoType.exactKeys_null _
    | some ys =>
      simp only [GoType.encode, GoType.ExactKeys]
      intro v hv
      obtain ⟨y, -, rfl⟩ := List.mem_map.mp hv
      exact GoType.encode_exactKeys t hn y
  | _, .struct fs e, hn, x => by
    rw [GoType.NamesDistinct] at hn
    simp only [GoType.encode, GoType.ExactKeys]
    exact Fields.encode_exactMember fs hn.1 hn.2 (e x)

theorem Fields.encode_exactMember : {R : Type} → (fs : Fields R) → fs.names.Nodup →
    fs.NamesDistinct → (x : R) → ∀ m ∈ fs.encode x, fs.ExactMember m
  | _, .nil, _, _, x => by rw [Fields.encode]; simp
  | _, .field name o t fs, hnodup, hn, x => by
    rw [Fields.names, List.nodup_cons] at hnodup
    rw [Fields.NamesDistinct] at hn
    have hrest : ∀ m ∈ fs.encode x.2, (Fields.field name o t fs).ExactMember m := by
      intro m hm
      have hne : m.1 ≠ name := by
        intro h
        exact hnodup.1 (h ▸ Fields.mem_names_of_mem_encode hm)
      rw [Fields.ExactMember, if_neg hne]
      exact Fields.encode_exactMember fs hnodup.2 hn.2 x.2 m hm
    rw [Fields.encode]
    split_ifs
    · exact hrest
    · refine List.forall_mem_cons.mpr ⟨?_, hrest⟩
      rw [Fields.ExactMember, if_pos rfl]
      exact GoType.encode_exactKeys t hn.1 x.1
  | _, .embed es e fs, hnodup, hn, x => by
    rw [Fields.names, List.nodup_append] at hnodup
    rw [Fields.NamesDistinct] at hn
    rw [Fields.encode]
    refine List.forall_mem_append.mpr ⟨?_, ?_⟩
    · intro m hm
      rw [Fields.ExactMember, if_pos (Fields.mem_names_of_mem_encode hm)]
      exact Fields.encode_exactMember es hnodup.1 hn.1 _ m hm
    · intro m hm
      have hout : m.1 ∉ es.names := by
        intro h
        exact hnodup.2.2 _ h _ (Fields.mem_names_of_mem_encode hm) rfl
      rw [Fields.ExactMember, if_neg hout]
      exact Fields.encode_exactMember fs hnodup.2.1 hn.2 _ m hm

end

/-- An encoded value is decoded as the reference decoder decodes it. -/
theorem GoType.decode_encode {α : Type} {fold : GoString → GoString} {t : GoType α}
    (h : t.NamesDistinct) (x : α) : t.decode fold t.zero (t.encode x) = t.refDecode (t.encode x) :=
  t.decode_eq_refDecode h (t.encode_keysDistinct h x) (t.encode_exactKeys h x)

/-- `x` is encoded as text of at most `n` bytes that is decoded as `y`. -/
structure Encodes {α : Type} (t : GoType α) (x y : α) (n : ℕ) : Prop where
  written : (t.encode x).Written
  length : (t.encode x).print.length ≤ n
  reads : t.refDecode (t.encode x) = some y

theorem Encodes.mono {α : Type} {t : GoType α} {x y : α} {n m : ℕ} (h : Encodes t x y n)
    (hnm : n ≤ m) : Encodes t x y m :=
  ⟨h.written, h.length.trans hnm, h.reads⟩

/-- A field that is left out reads back as zero; any other is encoded. -/
def FieldEncodes {α : Type} (o : Omit) (t : GoType α) (x y : α) (n : ℕ) : Prop :=
  if o.omits t x then y = t.zero else Encodes t x y n

/-- Every field with its own bound. -/
def Fields.Encodes : {R : Type} → Fields R → R → R → List ℕ → Prop
  | _, .nil, _, _, _ => True
  | _, .field _ o t fs, x, y, ns =>
    FieldEncodes o t x.1 y.1 (ns.headD 0) ∧ fs.Encodes x.2 y.2 ns.tail
  | _, .embed es e fs, x, y, ns =>
    es.Encodes (e x.1) (e y.1) (ns.take es.names.length) ∧
      fs.Encodes x.2 y.2 (ns.drop es.names.length)

/-- The bytes of members with these names, given a bound for each value: name, colon,
value and separator. -/
def membersSize (names : List GoString) (ns : List ℕ) : ℕ :=
  (List.zipWith (fun name n => (Json.quote name).length + n + 2) names ns).sum

theorem membersSize_append {a b : List GoString} {ns : List ℕ} (h : a.length ≤ ns.length) :
    membersSize (a ++ b) ns =
      membersSize a (ns.take a.length) + membersSize b (ns.drop a.length) := by
  unfold membersSize
  rw [← List.sum_append, ← List.zipWith_append (by simpa using h), List.take_append_drop]

theorem Fields.Encodes.written : {R : Type} → {fs : Fields R} → {x y : R} → {ns : List ℕ} →
    fs.Encodes x y ns → ∀ m ∈ fs.encode x, m.2.Written
  | _, .nil, _, _, _, _ => by rw [Fields.encode]; simp
  | _, .field name o t fs, x, y, ns, h => by
    rw [Fields.Encodes, FieldEncodes] at h
    rw [Fields.encode]
    split_ifs at h ⊢
    · exact h.2.written
    · exact List.forall_mem_cons.mpr ⟨h.1.written, h.2.written⟩
  | _, .embed es e fs, x, y, ns, h => by
    rw [Fields.Encodes] at h
    rw [Fields.encode]
    exact List.forall_mem_append.mpr ⟨h.1.written, h.2.written⟩

theorem Fields.Encodes.length_le : {R : Type} → {fs : Fields R} → {x y : R} → {ns : List ℕ} →
    ns.length = fs.names.length → fs.Encodes x y ns →
    ((fs.encode x).map (fun m => (Json.quote m.1).length + m.2.print.length + 2)).sum ≤
      membersSize fs.names ns
  | _, .nil, _, _, _, _, _ => by rw [Fields.encode]; simp
  | _, .field name o t fs, x, y, ns, hlen, h => by
    rw [Fields.names, List.length_cons] at hlen
    obtain ⟨n, ns, rfl⟩ := List.exists_cons_of_length_eq_add_one hlen
    rw [Fields.Encodes, FieldEncodes, List.headD_cons, List.tail_cons] at h
    have ih := length_le (by simpa using hlen) h.2
    have hsize : membersSize (name :: fs.names) (n :: ns) =
        (Json.quote name).length + n + 2 + membersSize fs.names ns := by
      simp [membersSize]
    rw [Fields.encode, Fields.names, hsize]
    split_ifs at h ⊢
    · omega
    · have := h.1.length
      rw [List.map_cons, List.sum_cons]
      show (Json.quote name).length + (t.encode x.1).print.length + 2 + _ ≤ _
      omega
  | _, .embed es e fs, x, y, ns, hlen, h => by
    rw [Fields.names, List.length_append] at hlen
    rw [Fields.Encodes] at h
    have hes := length_le (by rw [List.length_take]; omega) h.1
    have hfs := length_le (by rw [List.length_drop]; omega) h.2
    rw [Fields.encode, Fields.names, List.map_append, List.sum_append,
      membersSize_append (by omega)]
    omega

theorem member?_append {a b : List (GoString × Json)} {k : GoString} :
    member? (a ++ b) k = (member? a k).or (member? b k) := by
  rw [member?, List.find?_append, member?, member?]
  cases a.find? (fun m => m.1 = k) <;> rfl

theorem member?_eq_none {ms : List (GoString × Json)} {k : GoString}
    (h : ∀ m ∈ ms, m.1 ≠ k) : member? ms k = none := by
  rw [member?, Option.map_eq_none_iff, List.find?_eq_none]
  simpa using fun a b hm => h (a, b) hm

theorem Fields.Encodes.reads : {R : Type} → {fs : Fields R} → {x y : R} → {ns : List ℕ} →
    fs.names.Nodup → fs.Encodes x y ns → fs.refDecode (fs.encode x) = some y
  | _, .nil, _, _, _, _, _ => by rw [Fields.refDecode]
  | _, .field name o t fs, x, y, ns, hnodup, h => by
    rw [Fields.names, List.nodup_cons] at hnodup
    rw [Fields.Encodes, FieldEncodes] at h
    have ih := h.2.reads hnodup.2
    have habsent : member? (fs.encode x.2) name = none := by
      refine member?_eq_none (fun m hm heq => hnodup.1 ?_)
      exact heq ▸ Fields.mem_names_of_mem_encode hm
    rw [Fields.refDecode, Fields.encode]
    split_ifs at h ⊢
    · rw [habsent, ih, Option.map_none, Option.getD_none, ← h.1]
      rfl
    · have hfirst : member? ((name, t.encode x.1) :: fs.encode x.2) name = some (t.encode x.1) := by
        simp [member?]
      have hrest : fs.refDecode ((name, t.encode x.1) :: fs.encode x.2) =
          fs.refDecode (fs.encode x.2) := by
        refine fs.refDecode_congr (fun n hn => ?_)
        have hne : name ≠ n := fun heq => hnodup.1 (heq ▸ hn)
        simp [member?, hne]
      rw [hfirst, hrest, ih, Option.map_some, Option.getD_some, h.1.reads]
      rfl
  | _, .embed es e fs, x, y, ns, hnodup, h => by
    rw [Fields.names, List.nodup_append] at hnodup
    rw [Fields.Encodes] at h
    have hinner : es.refDecode (es.encode (e x.1) ++ fs.encode x.2) = some (e y.1) := by
      refine (es.refDecode_congr (fun n hn => ?_)).trans (h.1.reads hnodup.1)
      have hnone : member? (fs.encode x.2) n = none := by
        refine member?_eq_none (fun m hm heq => ?_)
        exact hnodup.2.2 n hn m.1 (Fields.mem_names_of_mem_encode hm) heq.symm
      rw [member?_append, hnone, Option.or_none]
    have hothers : fs.refDecode (es.encode (e x.1) ++ fs.encode x.2) = some y.2 := by
      refine (fs.refDecode_congr (fun n hn => ?_)).trans (h.2.reads hnodup.2.1)
      have hnone : member? (es.encode (e x.1)) n = none := by
        refine member?_eq_none (fun m hm heq => ?_)
        exact hnodup.2.2 m.1 (Fields.mem_names_of_mem_encode hm) n hn heq
      rw [member?_append, hnone, Option.none_or]
    rw [Fields.refDecode, Fields.encode, hinner, hothers]
    simp

/-- The rule for a struct. -/
theorem Encodes.struct {S R : Type} {fs : Fields R} {e : S ≃ R} {x y : S} (ns : List ℕ)
    (hnames : fs.names.Nodup) (hplain : ∀ n ∈ fs.names, Json.Plain n)
    (hlen : ns.length = fs.names.length) (h : fs.Encodes (e x) (e y) ns) :
    Encodes (.struct fs e) x y (membersSize fs.names ns + 2) where
  written := by
    rw [GoType.encode]
    exact Json.written_obj (fun m hm => ⟨hplain _ (Fields.mem_names_of_mem_encode hm),
      h.written m hm⟩)
  length := by
    rw [GoType.encode]
    exact (Json.length_print_obj _).trans (Nat.add_le_add_right (h.length_le hlen) 2)
  reads := by
    have hall : (fs.encode (e x)).all (fun m => m.1 ∈ fs.names) = true := by
      simpa using fun k v hm => Fields.mem_names_of_mem_encode (m := (k, v)) hm
    simp only [GoType.encode, GoType.refDecode, hall, if_true, h.reads hnames, Option.map_some,
      Equiv.symm_apply_apply]

/-- The rule for a pointer that is set. -/
theorem Encodes.pointer {α : Type} {t : GoType α} {x y : α} {n : ℕ} (h : Encodes t x y n)
    (hnull : t.encode x ≠ .null) : Encodes (.ptr t) (some x) (some y) n where
  written := by simpa only [GoType.encode] using h.written
  length := by simpa only [GoType.encode] using h.length
  reads := by
    have hreads := h.reads
    simp only [GoType.encode]
    cases hv : t.encode x with
    | null => exact absurd hv hnull
    | bool | num | str | arr | obj => simp_all [GoType.refDecode]

/-- The rule for a slice that is not nil. -/
theorem Encodes.elements {α : Type} {t : GoType α} {xs ys : List α} {n : ℕ}
    (h : List.Forall₂ (fun x y => Encodes t x y n) xs ys) :
    Encodes (.slice t) (some xs) (some ys) (xs.length * (n + 1) + 2) where
  written := by
    simp only [GoType.encode]
    refine Json.written_arr ?_
    induction h with
    | nil => simp
    | cons hx _ ih => exact List.forall_mem_cons.mpr ⟨hx.written, ih⟩
  length := by
    simp only [GoType.encode]
    refine (Json.length_print_arr _).trans (Nat.add_le_add_right ?_ 2)
    induction h with
    | nil => simp
    | cons hx _ ih =>
      have := hx.length
      rw [List.map_cons, List.map_cons, List.sum_cons, List.length_cons, Nat.succ_mul]
      omega
  reads := by
    simp only [GoType.encode, GoType.refDecode]
    have hmap : (xs.map t.encode).mapM t.refDecode = some ys := by
      induction h with
      | nil => rfl
      | cons hx _ ih =>
        rw [List.map_cons, List.mapM_cons, hx.reads, ih]
        rfl
    rw [hmap, Option.map_some]

mutual

/-- Only the zero value passes the test of `omitzero`. -/
def GoType.ZeroExact : {α : Type} → GoType α → Prop
  | _, .leaf l => ∀ x, l.isZero x = true → x = l.zero
  | _, .stringMap => True
  | _, .ptr _ => True
  | _, .slice _ => True
  | _, .struct fs _ => fs.ZeroExact

def Fields.ZeroExact : {R : Type} → Fields R → Prop
  | _, .nil => True
  | _, .field _ _ t fs => t.ZeroExact ∧ fs.ZeroExact
  | _, .embed es _ fs => es.ZeroExact ∧ fs.ZeroExact

end

mutual

theorem GoType.eq_zero_of_isZero : {α : Type} → (t : GoType α) → t.ZeroExact → {x : α} →
    t.isZero x = true → x = t.zero
  | _, .leaf l, ht, x, h => by
    rw [GoType.ZeroExact] at ht
    rw [GoType.isZero] at h
    rw [GoType.zero]
    exact ht x h
  | _, .stringMap, _, x, h => by
    simpa only [GoType.isZero, GoType.zero, Option.isNone_iff_eq_none] using h
  | _, .ptr _, _, x, h => by
    simpa only [GoType.isZero, GoType.zero, Option.isNone_iff_eq_none] using h
  | _, .slice _, _, x, h => by
    simpa only [GoType.isZero, GoType.zero, Option.isNone_iff_eq_none] using h
  | _, .struct fs e, ht, x, h => by
    rw [GoType.ZeroExact] at ht
    rw [GoType.isZero] at h
    rw [GoType.zero, ← Fields.eq_zero_of_isZero fs ht h, Equiv.symm_apply_apply]

theorem Fields.eq_zero_of_isZero : {R : Type} → (fs : Fields R) → fs.ZeroExact → {x : R} →
    fs.isZero x = true → x = fs.zero
  | _, .nil, _, _, _ => rfl
  | _, .field _ _ t fs, ht, x, h => by
    rw [Fields.ZeroExact] at ht
    rw [Fields.isZero, Bool.and_eq_true] at h
    rw [Fields.zero, ← GoType.eq_zero_of_isZero t ht.1 h.1, ← Fields.eq_zero_of_isZero fs ht.2 h.2]
  | _, .embed es e fs, ht, x, h => by
    rw [Fields.ZeroExact] at ht
    rw [Fields.isZero, Bool.and_eq_true] at h
    rw [Fields.zero, ← Fields.eq_zero_of_isZero es ht.1 h.1, ← Fields.eq_zero_of_isZero fs ht.2 h.2,
      Equiv.symm_apply_apply]

end

mutual

/-- Every value that a leaf of a type writes has the property. -/
def GoType.Leaves (P : Json → Prop) : {α : Type} → GoType α → Prop
  | _, .leaf l => ∀ x, P (l.encode x)
  | _, .stringMap => ∀ s, P (.str s)
  | _, .ptr t => t.Leaves P
  | _, .slice t => t.Leaves P
  | _, .struct fs _ => fs.Leaves P

def Fields.Leaves (P : Json → Prop) : {R : Type} → Fields R → Prop
  | _, .nil => True
  | _, .field _ _ t fs => t.Leaves P ∧ fs.Leaves P
  | _, .embed es _ fs => es.Leaves P ∧ fs.Leaves P

end

/-- A property that null has and that arrays and objects take from their parts. -/
structure OfParts (P : Json → Prop) : Prop where
  null : P .null
  arr : ∀ vs, (∀ v ∈ vs, P v) → P (.arr vs)
  obj : ∀ ms : List (GoString × Json), (∀ m ∈ ms, P m.2) → P (.obj ms)

mutual

/-- Such a property holds of what is written when it holds at the leaves. -/
theorem GoType.encode_of_leaves {P : Json → Prop} (hP : OfParts P) : {α : Type} →
    (t : GoType α) → t.Leaves P → (x : α) → P (t.encode x)
  | _, .leaf l, h, x => by
    rw [GoType.Leaves] at h
    rw [GoType.encode]
    exact h x
  | _, .stringMap, h, x => by
    rw [GoType.Leaves] at h
    cases x with
    | none => simpa only [GoType.encode] using hP.null
    | some m =>
      simp only [GoType.encode]
      refine hP.obj _ ?_
      intro kv hkv
      obtain ⟨e, -, rfl⟩ := List.mem_map.mp hkv
      exact h _
  | _, .ptr t, h, x => by
    rw [GoType.Leaves] at h
    cases x with
    | none => simpa only [GoType.encode] using hP.null
    | some y => simpa only [GoType.encode] using GoType.encode_of_leaves hP t h y
  | _, .slice t, h, x => by
    rw [GoType.Leaves] at h
    cases x with
    | none => simpa only [GoType.encode] using hP.null
    | some ys =>
      simp only [GoType.encode]
      refine hP.arr _ ?_
      intro v hv
      obtain ⟨y, -, rfl⟩ := List.mem_map.mp hv
      exact GoType.encode_of_leaves hP t h y
  | _, .struct fs e, h, x => by
    rw [GoType.Leaves] at h
    rw [GoType.encode]
    exact hP.obj _ (Fields.encode_of_leaves hP fs h _)

theorem Fields.encode_of_leaves {P : Json → Prop} (hP : OfParts P) : {R : Type} →
    (fs : Fields R) → fs.Leaves P → (x : R) → ∀ m ∈ fs.encode x, P m.2
  | _, .nil, _, x => by rw [Fields.encode]; simp
  | _, .field name o t fs, h, x => by
    rw [Fields.Leaves] at h
    have ih := Fields.encode_of_leaves hP fs h.2 x.2
    rw [Fields.encode]
    split_ifs
    · exact ih
    · exact List.forall_mem_cons.mpr ⟨GoType.encode_of_leaves hP t h.1 x.1, ih⟩
  | _, .embed es e fs, h, x => by
    rw [Fields.Leaves] at h
    rw [Fields.encode]
    exact List.forall_mem_append.mpr ⟨Fields.encode_of_leaves hP es h.1 _,
      Fields.encode_of_leaves hP fs h.2 _⟩

end

mutual

/-- A value without the members that no field matches, at any depth. -/
def GoType.known (fold : GoString → GoString) : {α : Type} → GoType α → Json → Json
  | _, .leaf _, v => v
  | _, .stringMap, v => v
  | _, .ptr t, v => t.known fold v
  | _, .slice t, v =>
    match v with
    | .arr vs => .arr (vs.map (t.known fold))
    | v => v
  | _, .struct fs _, v =>
    match v with
    | .obj ms => .obj (ms.filterMap (fun m =>
        (resolve fold fs.names m.1).map (fun n => (m.1, fs.knownAt fold n m.2))))
    | v => v

/-- A member's value as the field of that name sees it. -/
def Fields.knownAt (fold : GoString → GoString) : {R : Type} → Fields R → GoString → Json → Json
  | _, .nil, _, v => v
  | _, .field name _ t fs, n, v => if n = name then t.known fold v else fs.knownAt fold n v
  | _, .embed es _ fs, n, v => if n ∈ es.names then es.knownAt fold n v else fs.knownAt fold n v

end

/-- `json.Unmarshal` into a zero variable. -/
def GoType.unmarshal {α : Type} (fold : GoString → GoString) (t : GoType α) (v : Json) : Option α :=
  t.decode fold t.zero (t.known fold v)

mutual

/-- Nothing is ignored where every name is a field's. -/
theorem GoType.known_of_exactKeys {fold : GoString → GoString} : {α : Type} → (t : GoType α) →
    {v : Json} → t.ExactKeys v → t.known fold v = v
  | _, .leaf _, v, _ => by rw [GoType.known]
  | _, .stringMap, v, _ => by rw [GoType.known]
  | _, .ptr t, v, h => by
    rw [GoType.ExactKeys] at h
    rw [GoType.known]
    exact GoType.known_of_exactKeys t h
  | _, .slice t, v, h => by
    cases v with
    | arr vs =>
      simp only [GoType.ExactKeys] at h
      simp only [GoType.known, Json.arr.injEq]
      exact (List.map_congr_left fun w hw => GoType.known_of_exactKeys t (h w hw)).trans
        (List.map_id vs)
    | null | bool | num | str | obj => simp only [GoType.known]
  | _, .struct fs e, v, h => by
    cases v with
    | obj ms =>
      simp only [GoType.ExactKeys] at h
      simp only [GoType.known, Json.obj.injEq]
      have hmember : ∀ m ∈ ms, (resolve fold fs.names m.1).map
          (fun n => (m.1, fs.knownAt fold n m.2)) = some m := by
        intro m hm
        rw [resolve, if_pos (fs.mem_names (h m hm)), Option.map_some,
          Fields.knownAt_of_exactMember fs (h m hm)]
      rw [List.filterMap_congr hmember, List.filterMap_some]
    | null | bool | num | str | arr => simp only [GoType.known]

theorem Fields.knownAt_of_exactMember {fold : GoString → GoString} : {R : Type} →
    (fs : Fields R) → {m : GoString × Json} → fs.ExactMember m → fs.knownAt fold m.1 m.2 = m.2
  | _, .nil, m, _ => by rw [Fields.knownAt]
  | _, .field name _ t fs, m, h => by
    rw [Fields.ExactMember] at h
    rw [Fields.knownAt]
    split_ifs at h ⊢
    · exact GoType.known_of_exactKeys t h
    · exact Fields.knownAt_of_exactMember fs h
  | _, .embed es _ fs, m, h => by
    rw [Fields.ExactMember] at h
    rw [Fields.knownAt]
    split_ifs at h ⊢
    · exact Fields.knownAt_of_exactMember es h
    · exact Fields.knownAt_of_exactMember fs h

end

/-- What is encoded is read back. -/
theorem Encodes.unmarshal {α : Type} {fold : GoString → GoString} {t : GoType α} {x y : α} {n : ℕ}
    (hnames : t.NamesDistinct) (h : Encodes t x y n) : t.unmarshal fold (t.encode x) = some y := by
  rw [GoType.unmarshal, t.known_of_exactKeys (t.encode_exactKeys hnames x),
    GoType.decode_encode hnames, h.reads]

end GoJson

end K3smApis
