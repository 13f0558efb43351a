import Mathlib.Data.List.Nodup
import Mathlib.Data.List.Perm.Basic

/-!
# Lists by key

A map in the order of its keys' first appearance, as a list whose elements carry their key,
and lists that agree key by key: for every key, the elements of that key are the same in the
same order.
-/
namespace K3smApis.KeyedList

variable {α κ : Type*} [DecidableEq κ] {key : α → κ}

/-- The element of a key, changed; a new one at the end if there is none yet. -/
def upsert (key : α → κ) (k : κ) (new : α) (f : α → α) : List α → List α
  | [] => [f new]
  | a :: l => if key a = k then f a :: l else a :: upsert key k new f l

theorem find?_upsert {k : κ} {new : α} {f : α → α} (hnew : key new = k)
    (hf : ∀ a, key (f a) = key a) (k' : κ) (l : List α) :
    (upsert key k new f l).find? (fun a => key a = k') =
      if k' = k then some (f ((l.find? (fun a => key a = k)).getD new))
      else l.find? (fun a => key a = k') := by
  induction l with
  | nil =>
    by_cases hk : k' = k
    · simp [upsert, hf, hnew, hk]
    · simp [upsert, hf, hnew, hk, Ne.symm hk]
  | cons a l ih =>
    rw [upsert]
    by_cases ha : key a = k
    · rw [if_pos ha]
      by_cases hk : k' = k
      · simp [hf, hk, ha]
      · simp [hf, hk, ha, Ne.symm hk]
    · rw [if_neg ha, List.find?_cons, ih]
      by_cases hk : k' = k
      · simp [hk, ha]
      · simp [hk, List.find?_cons]

theorem map_key_upsert {k : κ} {new : α} {f : α → α} (hnew : key new = k)
    (hf : ∀ a, key (f a) = key a) (l : List α) : (upsert key k new f l).map key =
      if k ∈ l.map key then l.map key else l.map key ++ [k] := by
  induction l with
  | nil => simp [upsert, hf, hnew]
  | cons a l ih =>
    rw [upsert]
    by_cases ha : key a = k
    · simp [ha, hf]
    · rw [if_neg ha, List.map_cons, ih]
      by_cases hmem : k ∈ l.map key
      · rw [if_pos hmem, List.map_cons, if_pos (List.mem_cons_of_mem _ hmem)]
      · have hcons : k ∉ (a :: l).map key := by
          rw [List.map_cons, List.mem_cons, not_or]
          exact ⟨Ne.symm ha, hmem⟩
        rw [if_neg hmem, if_neg hcons]
        rfl

theorem nodup_upsert {k : κ} {new : α} {f : α → α} (hnew : key new = k)
    (hf : ∀ a, key (f a) = key a) {l : List α} (h : (l.map key).Nodup) :
    ((upsert key k new f l).map key).Nodup := by
  rw [map_key_upsert hnew hf]
  split_ifs with hmem
  · exact h
  · rw [← List.concat_eq_append]
    exact h.concat hmem

/-- With distinct keys, an element is the one its key finds. -/
theorem mem_iff_find? {l : List α} (h : (l.map key).Nodup) {a : α} :
    a ∈ l ↔ l.find? (fun b => key b = key a) = some a := by
  refine ⟨fun ha => ?_, List.mem_of_find?_eq_some⟩
  have hsome : l.find? (fun b => key b = key a) ≠ none := by
    rw [ne_eq, List.find?_eq_none]
    exact fun hnone => hnone a ha (by simp)
  obtain ⟨b, hb⟩ := Option.ne_none_iff_exists'.mp hsome
  have hkey : key b = key a := by simpa using List.find?_some hb
  rw [hb, List.inj_on_of_nodup_map h (List.mem_of_find?_eq_some hb) ha hkey]

/-- The elements of a key. -/
def ofKey (key : α → κ) (k : κ) (l : List α) : List α := l.filter (fun a => key a = k)

/-- For every key, the same elements in the same order. -/
def SameByKey (key : α → κ) (l₁ l₂ : List α) : Prop := ∀ k, ofKey key k l₁ = ofKey key k l₂

theorem mem_ofKey {k : κ} {l : List α} {a : α} : a ∈ ofKey key k l ↔ a ∈ l ∧ key a = k := by
  simp [ofKey]

theorem ofKey_concat (k : κ) (l : List α) (a : α) : ofKey key k (l ++ [a]) =
    if key a = k then ofKey key k l ++ [a] else ofKey key k l := by
  rw [ofKey, List.filter_append, ← ofKey]
  split_ifs with h <;> simp [h]

theorem SameByKey.mem_iff {l₁ l₂ : List α} (h : SameByKey key l₁ l₂) {a : α} :
    a ∈ l₁ ↔ a ∈ l₂ := by
  have hkey := h (key a)
  constructor
  · intro ha
    exact (mem_ofKey.mp (hkey ▸ mem_ofKey.mpr ⟨ha, rfl⟩)).1
  · intro ha
    exact (mem_ofKey.mp (hkey.symm ▸ mem_ofKey.mpr ⟨ha, rfl⟩)).1

theorem SameByKey.append {l₁ l₂ m₁ m₂ : List α} (hl : SameByKey key l₁ l₂)
    (hm : SameByKey key m₁ m₂) : SameByKey key (l₁ ++ m₁) (l₂ ++ m₂) := by
  intro k
  have hlk := hl k
  have hmk := hm k
  unfold ofKey at hlk hmk ⊢
  rw [List.filter_append, List.filter_append, hlk, hmk]

/-- A permutation agrees key by key when a key has one element, however often. -/
theorem sameByKey_of_perm {l₁ l₂ : List α} (h : l₁.Perm l₂)
    (hinj : ∀ a ∈ l₁, ∀ b ∈ l₁, key a = key b → a = b) : SameByKey key l₁ l₂ := by
  intro k
  have hperm : (ofKey key k l₁).Perm (ofKey key k l₂) := h.filter _
  cases hl : ofKey key k l₁ with
  | nil => rw [hl] at hperm; exact hperm.nil_eq
  | cons a l =>
    have ha : a ∈ ofKey key k l₁ := by rw [hl]; exact List.mem_cons_self
    have hall : ∀ b ∈ ofKey key k l₁, b = a := by
      intro b hb
      obtain ⟨hb, hbk⟩ := mem_ofKey.mp hb
      obtain ⟨ha, hak⟩ := mem_ofKey.mp ha
      exact hinj b hb a ha (hbk.trans hak.symm)
    have hfirst := List.eq_replicate_of_mem hall
    have hsecond := List.eq_replicate_of_mem fun b hb => hall b (hperm.mem_iff.mpr hb)
    rw [← hl, hfirst, hsecond, hperm.length_eq]

/-- Permuted lists of distinct keys. -/
theorem perm_of_nodup {l₁ l₂ : List α} (h₁ : (l₁.map key).Nodup) (h₂ : (l₂.map key).Nodup)
    (hfind : ∀ k, l₁.find? (fun a => key a = k) = l₂.find? (fun a => key a = k)) :
    l₁.Perm l₂ := by
  refine (List.perm_ext_iff_of_nodup h₁.of_map h₂.of_map).mpr fun a => ?_
  rw [mem_iff_find? h₁, mem_iff_find? h₂, hfind]

end K3smApis.KeyedList
