import K3smApis.GoText
import Mathlib.Data.List.Lex

/-!
# Go maps from strings to strings

A map value is its entries in ascending order of the keys, so two maps with the same
entries are the same value and a loop over one can be read in any order. The order of
strings is Go's: byte by byte.
-/
namespace K3smApis

/-- The bytes of a string as numbers: the key Go orders strings by. -/
def GoString.key (s : GoString) : List ℕ := s.map UInt8.toNat

theorem GoString.key_injective : Function.Injective GoString.key := by
  intro s t h
  exact List.map_injective_iff.mpr (fun _ _ => UInt8.toNat_inj.mp) h

/-- `a < b` on Go strings. -/
def GoString.less (a b : GoString) : Prop := a.key < b.key

instance (a b : GoString) : Decidable (a.less b) := inferInstanceAs (Decidable (a.key < b.key))

theorem GoString.less_irrefl (a : GoString) : ¬a.less a := lt_irrefl a.key

theorem GoString.less_trans {a b c : GoString} (hab : a.less b) (hbc : b.less c) : a.less c :=
  lt_trans hab hbc

theorem GoString.less_trichotomy (a b : GoString) : a.less b ∨ a = b ∨ b.less a := by
  rcases lt_trichotomy a.key b.key with h | h | h
  · exact .inl h
  · exact .inr (.inl (GoString.key_injective h))
  · exact .inr (.inr h)

/-- A `map[string]string`: entries in ascending order of the keys. -/
structure StringMap where
  entries : List (GoString × GoString)
  sorted : entries.Pairwise (fun a b => a.1.less b.1)
  deriving Repr

namespace StringMap

instance : DecidableEq StringMap := fun a b =>
  decidable_of_iff (a.entries = b.entries)
    ⟨fun h => by cases a; cases b; simp_all, fun h => h ▸ rfl⟩

/-- An empty map. -/
def empty : StringMap := ⟨[], .nil⟩

instance : Inhabited StringMap := ⟨empty⟩

/-- `v, ok := m[k]`. -/
def get? (m : StringMap) (k : GoString) : Option GoString :=
  (m.entries.find? (fun e => e.1 = k)).map Prod.snd

/-- `len(m)`. -/
def size (m : StringMap) : ℕ := m.entries.length

/-- `m[k] = v` on the entries. -/
def insertEntry (k v : GoString) : List (GoString × GoString) → List (GoString × GoString)
  | [] => [(k, v)]
  | e :: es =>
    if k = e.1 then (k, v) :: es
    else if k.less e.1 then (k, v) :: e :: es
    else e :: insertEntry k v es

theorem mem_insertEntry {k v : GoString} {es : List (GoString × GoString)}
    {e : GoString × GoString} (h : e ∈ insertEntry k v es) : e = (k, v) ∨ e ∈ es := by
  induction es with
  | nil => exact .inl (List.mem_singleton.mp h)
  | cons e' es ih =>
    unfold insertEntry at h
    split_ifs at h
    · rcases List.mem_cons.mp h with h | h
      · exact .inl h
      · exact .inr (List.mem_cons_of_mem _ h)
    · exact List.mem_cons.mp h
    · rcases List.mem_cons.mp h with rfl | h
      · exact .inr List.mem_cons_self
      · exact (ih h).imp_right (List.mem_cons_of_mem _)

theorem insertEntry_sorted {k v : GoString} {es : List (GoString × GoString)}
    (h : es.Pairwise (fun a b => a.1.less b.1)) :
    (insertEntry k v es).Pairwise (fun a b => a.1.less b.1) := by
  induction es with
  | nil => exact List.pairwise_singleton _ _
  | cons e es ih =>
    obtain ⟨hhead, htail⟩ := List.pairwise_cons.mp h
    unfold insertEntry
    split_ifs with heq hless
    · subst heq
      exact List.pairwise_cons.mpr ⟨hhead, htail⟩
    · refine List.pairwise_cons.mpr ⟨?_, h⟩
      intro e' he'
      rcases List.mem_cons.mp he' with rfl | he'
      · exact hless
      · exact GoString.less_trans hless (hhead e' he')
    · refine List.pairwise_cons.mpr ⟨?_, ih htail⟩
      intro e' he'
      rcases mem_insertEntry he' with rfl | he'
      · exact ((GoString.less_trichotomy k e.1).resolve_left hless).resolve_left heq
      · exact hhead e' he'

/-- `m[k] = v`. -/
def insert (m : StringMap) (k v : GoString) : StringMap :=
  ⟨insertEntry k v m.entries, insertEntry_sorted m.sorted⟩

theorem keys_distinct (m : StringMap) : (m.entries.map Prod.fst).Nodup := by
  rw [List.Nodup, List.pairwise_map]
  apply m.sorted.imp
  intro a b hab he
  rw [he] at hab
  exact GoString.less_irrefl _ hab

theorem get?_eq_some {m : StringMap} {k v : GoString} :
    m.get? k = some v ↔ (k, v) ∈ m.entries := by
  unfold get?
  rw [Option.map_eq_some_iff]
  constructor
  · rintro ⟨e, he, rfl⟩
    have hk : e.1 = k := by simpa using List.find?_some he
    rw [← hk]
    exact List.mem_of_find?_eq_some he
  · intro hmem
    obtain ⟨e, he⟩ : ∃ e, m.entries.find? (fun e => e.1 = k) = some e := by
      rw [← Option.isSome_iff_exists, List.find?_isSome]
      exact ⟨(k, v), hmem, by simp⟩
    refine ⟨e, he, ?_⟩
    have hk : e.1 = k := by simpa using List.find?_some he
    have hsame : e = (k, v) :=
      List.inj_on_of_nodup_map m.keys_distinct (List.mem_of_find?_eq_some he) hmem hk
    rw [hsame]

theorem find?_insertEntry {k v k' : GoString} (es : List (GoString × GoString)) :
    (insertEntry k v es).find? (fun e => e.1 = k') =
      if k' = k then some (k, v) else es.find? (fun e => e.1 = k') := by
  induction es with
  | nil =>
    by_cases hk : k = k'
    · simp [insertEntry, hk]
    · simp [insertEntry, hk, Ne.symm hk]
  | cons e es ih =>
    unfold insertEntry
    by_cases hk : k = k'
    · subst hk
      rw [if_pos rfl] at ih ⊢
      split_ifs with heq
      · simp
      · simp
      · rw [List.find?_cons_of_neg (by simpa using Ne.symm heq), ih]
    · rw [if_neg (Ne.symm hk)] at ih ⊢
      split_ifs with heq
      · subst heq
        rw [List.find?_cons_of_neg (by simpa using hk), List.find?_cons_of_neg (by simpa using hk)]
      · rw [List.find?_cons_of_neg (by simpa using hk)]
      · rw [List.find?_cons, List.find?_cons, ih]

theorem get?_insert {m : StringMap} {k v k' : GoString} :
    (m.insert k v).get? k' = if k' = k then some v else m.get? k' := by
  unfold get? insert
  rw [find?_insertEntry]
  split_ifs <;> rfl

/-- Maps with the same answers are the same map. -/
theorem ext_get? {m m' : StringMap} (h : ∀ k, m.get? k = m'.get? k) : m = m' := by
  have hperm : m.entries.Perm m'.entries := by
    refine (List.perm_ext_iff_of_nodup m.keys_distinct.of_map m'.keys_distinct.of_map).mpr ?_
    intro e
    rw [← get?_eq_some, ← get?_eq_some, h]
  have heq : m.entries = m'.entries := by
    refine hperm.eq_of_pairwise ?_ m.sorted m'.sorted
    intro a b _ _ hab hba
    exact absurd (GoString.less_trans hab hba) (GoString.less_irrefl _)
  cases m
  cases m'
  simp only at heq
  subst heq
  rfl

theorem insert_comm {m : StringMap} {k v k' v' : GoString} (h : k ≠ k') :
    (m.insert k v).insert k' v' = (m.insert k' v').insert k v := by
  apply ext_get?
  intro j
  simp only [get?_insert]
  by_cases hj : j = k
  · subst hj
    rw [if_neg h, if_pos rfl, if_pos rfl]
  · rw [if_neg hj, if_neg hj]

end StringMap

end K3smApis
