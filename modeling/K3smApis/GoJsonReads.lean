import K3smApis.JsonStrings

/-!
# What encoding/json reads back

`ReadsBack t x y` collects what a reader wants of an encoding when its strings may hold any
text: the numbers are integers, the strings are well-formed, and the value decodes to `y`. One
rule for each kind of type builds it up from the leaves.
-/
namespace K3smApis

namespace Json

theorem integers_arr {vs : List Json} (h : ∀ v ∈ vs, v.Integers) : (Json.arr vs).Integers := by
  have helements : ∀ vs : List Json, (∀ v ∈ vs, v.Integers) →
      ∀ l ∈ elementLexemes vs, l.Integer := by
    intro vs hvs
    induction vs with
    | nil => simp [elementLexemes, Lexeme.Integer]
    | cons v vs ih =>
      obtain ⟨hv, hrest⟩ := List.forall_mem_cons.mp hvs
      rw [elementLexemes]
      exact List.forall_mem_cons.mpr ⟨trivial, List.forall_mem_append.mpr ⟨hv, ih hrest⟩⟩
  cases vs with
  | nil => simp [Integers, lexemes, Lexeme.Integer]
  | cons v vs =>
    obtain ⟨hv, hrest⟩ := List.forall_mem_cons.mp h
    rw [Integers, lexemes]
    exact List.forall_mem_cons.mpr ⟨trivial, List.forall_mem_append.mpr ⟨hv, helements vs hrest⟩⟩

theorem integers_obj {ms : List (GoString × Json)} (h : ∀ m ∈ ms, m.2.Integers) :
    (Json.obj ms).Integers := by
  have hmembers : ∀ ms : List (GoString × Json), (∀ m ∈ ms, m.2.Integers) →
      ∀ l ∈ memberLexemes ms, l.Integer := by
    intro ms hms
    induction ms with
    | nil => simp [memberLexemes, Lexeme.Integer]
    | cons m ms ih =>
      obtain ⟨hm, hrest⟩ := List.forall_mem_cons.mp hms
      rw [memberLexemes]
      exact List.forall_mem_cons.mpr ⟨trivial, List.forall_mem_cons.mpr ⟨trivial,
        List.forall_mem_cons.mpr ⟨trivial, List.forall_mem_append.mpr ⟨hm, ih hrest⟩⟩⟩⟩
  cases ms with
  | nil => simp [Integers, lexemes, Lexeme.Integer]
  | cons m ms =>
    obtain ⟨hm, hrest⟩ := List.forall_mem_cons.mp h
    rw [Integers, lexemes]
    exact List.forall_mem_cons.mpr ⟨trivial, List.forall_mem_cons.mpr ⟨trivial,
      List.forall_mem_cons.mpr ⟨trivial, List.forall_mem_append.mpr ⟨hm, hmembers ms hrest⟩⟩⟩⟩

theorem cleaned_arr {vs : List Json} (h : ∀ v ∈ vs, v.cleaned = v) :
    (Json.arr vs).cleaned = .arr vs := by
  rw [cleaned, cleanedElements_eq, (List.map_congr_left h).trans (List.map_id' vs)]

theorem cleaned_obj {ms : List (GoString × Json)}
    (h : ∀ m ∈ ms, WellFormed m.1 ∧ m.2.cleaned = m.2) : (Json.obj ms).cleaned = .obj ms := by
  have hmember : ∀ m ∈ ms, (clean m.1, m.2.cleaned) = m := by
    intro m hm
    rw [(h m hm).1, (h m hm).2]
  rw [cleaned, cleanedMembers_eq, (List.map_congr_left hmember).trans (List.map_id' ms)]

theorem Written.integers {v : Json} (h : v.Written) : v.Integers := by
  intro l hl
  have hw := h l hl
  cases l with
  | num t => exact hw
  | _ => trivial

theorem Written.cleaned_eq {v : Json} (h : v.Written) : v.cleaned = v := by
  have hlexemes : v.cleaned.lexemes = v.lexemes := by
    rw [lexemes_cleaned]
    refine (List.map_congr_left fun l hl => ?_).trans (List.map_id' _)
    cases l with
    | str s => exact congrArg Lexeme.str (wellFormed_of_plain (h _ hl))
    | _ => rfl
  have hread := readValue_complete v v.lexemes.length [] le_rfl
  have hread' := readValue_complete v.cleaned v.lexemes.length [] (hlexemes ▸ le_rfl)
  rw [hlexemes, hread] at hread'
  exact (Prod.mk.inj (Option.some.inj hread')).1.symm

end Json

namespace GoJson

/-- `x` is encoded as text that is read back as `y`. -/
structure ReadsBack {α : Type} (t : GoType α) (x y : α) : Prop where
  integers : (t.encode x).Integers
  clean : (t.encode x).cleaned = t.encode x
  reads : t.refDecode (t.encode x) = some y

theorem Encodes.readsBack {α : Type} {t : GoType α} {x y : α} {n : ℕ} (h : Encodes t x y n) :
    ReadsBack t x y :=
  ⟨h.written.integers, h.written.cleaned_eq, h.reads⟩

/-- A field that is left out reads back as zero. -/
def FieldReadsBack {α : Type} (o : Omit) (t : GoType α) (x y : α) : Prop :=
  if o.omits t x then y = t.zero else ReadsBack t x y

theorem FieldEncodes.readsBack {α : Type} {o : Omit} {t : GoType α} {x y : α} {n : ℕ}
    (h : FieldEncodes o t x y n) : FieldReadsBack o t x y := by
  unfold FieldEncodes at h
  unfold FieldReadsBack
  split_ifs at h ⊢
  · exact h
  · exact h.readsBack

/-- Every field of a struct, none of them embedded. -/
def Fields.ReadsBack : {R : Type} → Fields R → R → R → Prop
  | _, .nil, _, _ => True
  | _, .field _ o t fs, x, y => FieldReadsBack o t x.1 y.1 ∧ fs.ReadsBack x.2 y.2
  | _, .embed _ _ _, _, _ => False

theorem Fields.ReadsBack.values : {R : Type} → {fs : Fields R} → {x y : R} → fs.ReadsBack x y →
    ∀ m ∈ fs.encode x, m.2.Integers ∧ m.2.cleaned = m.2
  | _, .nil, _, _, _ => by rw [Fields.encode]; simp
  | _, .field name o t fs, x, y, h => by
    rw [Fields.ReadsBack, FieldReadsBack] at h
    rw [Fields.encode]
    split_ifs at h ⊢
    · exact h.2.values
    · exact List.forall_mem_cons.mpr ⟨⟨h.1.integers, h.1.clean⟩, h.2.values⟩
  | _, .embed es e fs, x, y, h => by
    rw [Fields.ReadsBack] at h
    exact h.elim

theorem Fields.ReadsBack.reads : {R : Type} → {fs : Fields R} → {x y : R} → fs.names.Nodup →
    fs.ReadsBack x y → fs.refDecode (fs.encode x) = some y
  | _, .nil, _, _, _, _ => by rw [Fields.refDecode]
  | _, .field name o t fs, x, y, hnodup, h => by
    rw [Fields.names, List.nodup_cons] at hnodup
    rw [Fields.ReadsBack, FieldReadsBack] at h
    have ih := h.2.reads hnodup.2
    have habsent : member? (fs.encode x.2) name = none := by
      refine member?_eq_none (fun m hm heq => hnodup.1 ?_)
      exact heq ▸ Fields.mem_names_of_mem_encode hm
    rw [Fields.refDecode, Fields.encode]
    split_ifs at h ⊢
    · rw [habsent, ih, Option.map_none, Option.getD_none, ← h.1]
      rfl
    · have hfirst : member? ((name, t.encode x.1) :: fs.encode x.2) name = some (t.encode x.1) := by
        simp [member?]
      have hrest : fs.refDecode ((name, t.encode x.1) :: fs.encode x.2) =
          fs.refDecode (fs.encode x.2) := by
        refine fs.refDecode_congr (fun n hn => ?_)
        have hne : name ≠ n := fun heq => hnodup.1 (heq ▸ hn)
        simp [member?, hne]
      rw [hfirst, hrest, ih, Option.map_some, Option.getD_some, h.1.reads]
      rfl
  | _, .embed es e fs, x, y, hnodup, h => by
    rw [Fields.ReadsBack] at h
    exact h.elim

/-- The rule for a struct. -/
theorem ReadsBack.struct {S R : Type} {fs : Fields R} {e : S ≃ R} {x y : S}
    (hnames : fs.names.Nodup) (hclean : ∀ n ∈ fs.names, Json.WellFormed n)
    (h : fs.ReadsBack (e x) (e y)) : ReadsBack (.struct fs e) x y where
  integers := by
    rw [GoType.encode]
    exact Json.integers_obj fun m hm => (h.values m hm).1
  clean := by
    rw [GoType.encode]
    exact Json.cleaned_obj fun m hm =>
      ⟨hclean _ (Fields.mem_names_of_mem_encode hm), (h.values m hm).2⟩
  reads := by
    have hall : (fs.encode (e x)).all (fun m => m.1 ∈ fs.names) = true := by
      simpa using fun k v hm => Fields.mem_names_of_mem_encode (m := (k, v)) hm
    simp only [GoType.encode, GoType.refDecode, hall, if_true, h.reads hnames, Option.map_some,
      Equiv.symm_apply_apply]

/-- The rule for a slice that is not nil. -/
theorem ReadsBack.elements {α : Type} {t : GoType α} {xs ys : List α}
    (h : List.Forall₂ (ReadsBack t) xs ys) : ReadsBack (.slice t) (some xs) (some ys) where
  integers := by
    simp only [GoType.encode]
    refine Json.integers_arr ?_
    induction h with
    | nil => simp
    | cons hx _ ih => exact List.forall_mem_cons.mpr ⟨hx.integers, ih⟩
  clean := by
    simp only [GoType.encode]
    refine Json.cleaned_arr ?_
    induction h with
    | nil => simp
    | cons hx _ ih => exact List.forall_mem_cons.mpr ⟨hx.clean, ih⟩
  reads := by
    simp only [GoType.encode, GoType.refDecode]
    have hmap : (xs.map t.encode).mapM t.refDecode = some ys := by
      induction h with
      | nil => rfl
      | cons hx _ ih =>
        rw [List.map_cons, List.mapM_cons, hx.reads, ih]
        rfl
    rw [hmap, Option.map_some]

/-- Entries in order are stored one in front of the other. -/
theorem foldrM_storeMember (m : StringMap) :
    (m.entries.map fun e => (e.1, Json.str e.2)).foldrM (fun kv m => storeMember m kv) default =
      some m := by
  obtain ⟨es, hes⟩ := m
  dsimp only
  induction es with
  | nil => rfl
  | cons e es ih =>
    obtain ⟨hhead, htail⟩ := List.pairwise_cons.mp hes
    rw [List.map_cons, List.foldrM_cons, ih htail]
    show some (StringMap.insert ⟨es, htail⟩ e.1 e.2) = some ⟨e :: es, hes⟩
    have hfront : StringMap.insertEntry e.1 e.2 es = e :: es := by
      cases es with
      | nil => rfl
      | cons e' es =>
        have hless := hhead e' List.mem_cons_self
        have hne : e.1 ≠ e'.1 := by
          intro heq
          rw [heq] at hless
          exact GoString.less_irrefl _ hless
        rw [StringMap.insertEntry, if_neg hne, if_pos hless]
    simp only [StringMap.insert, hfront]

/-- The rule for a map of strings. -/
theorem ReadsBack.stringMap {m : StringMap}
    (h : ∀ e ∈ m.entries, Json.WellFormed e.1 ∧ Json.WellFormed e.2) :
    ReadsBack .stringMap (some m) (some m) where
  integers := by
    simp only [GoType.encode]
    refine Json.integers_obj fun kv hkv => ?_
    obtain ⟨e, -, rfl⟩ := List.mem_map.mp hkv
    exact fun l hl => by rw [List.mem_singleton.mp hl]; trivial
  clean := by
    simp only [GoType.encode]
    refine Json.cleaned_obj fun kv hkv => ?_
    obtain ⟨e, he, rfl⟩ := List.mem_map.mp hkv
    exact ⟨(h e he).1, congrArg Json.str (h e he).2⟩
  reads := by
    simp only [GoType.encode, GoType.refDecode, foldrM_storeMember, Option.map_some]

/-- The text of an encoded value is parsed as the value. -/
theorem ReadsBack.parse {α : Type} {t : GoType α} {x y : α} (h : ReadsBack t x y) :
    Json.parse (t.encode x).print = some (t.encode x) := by
  have hparse := Json.parse_print_cleaned h.integers (t := []) (by simp [Json.NumberEnd]) rfl
  rwa [List.append_nil, h.clean] at hparse

end GoJson

end K3smApis
