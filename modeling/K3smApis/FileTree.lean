import Mathlib.Data.List.Infix
import Mathlib.Data.List.Perm.Basic
import Mathlib.Data.List.Pairwise

/-!
# Trees of files

Regular files created one after the other in an empty tree, each with the directories it
needs. Creation fails on a name that is taken: a file is never overwritten, and nothing is
both a file and a directory. Names are compared by equality, so a tree whose names ignore
case is one over folded names.
-/
namespace K3smApis.FileTree

variable {κ : Type} [DecidableEq κ]

/-- The files and the directories of a tree, by their path from the root. -/
structure Tree (κ : Type) where
  files : List (List κ)
  dirs : List (List κ)

/-- The tree with nothing but its root. -/
def empty : Tree κ := ⟨[], [[]]⟩

/-- Makes a directory, or finds it there. -/
def mkdir (t : Tree κ) (d : List κ) : Option (Tree κ) :=
  if d ∈ t.files then none else some { t with dirs := d :: t.dirs }

/-- Makes a directory and those above it. -/
def mkdirAll (t : Tree κ) (d : List κ) : Option (Tree κ) := d.inits.foldlM mkdir t

/-- Creates a regular file. -/
def create (t : Tree κ) (p : List κ) : Option (Tree κ) := do
  let t ← mkdirAll t p.dropLast
  if p ∈ t.files ∨ p ∈ t.dirs then none else some { t with files := p :: t.files }

def createAll (t : Tree κ) (ps : List (List κ)) : Option (Tree κ) := ps.foldlM create t

theorem foldlM_mkdir {t t' : Tree κ} {ds : List (List κ)} (h : ds.foldlM mkdir t = some t') :
    (∀ d ∈ ds, d ∉ t.files) ∧ t'.files = t.files ∧ ∀ d, d ∈ t'.dirs ↔ d ∈ ds ∨ d ∈ t.dirs := by
  induction ds generalizing t with
  | nil =>
    cases h
    simp
  | cons d ds ih =>
    rw [List.foldlM_cons, Option.bind_eq_bind, Option.bind_eq_some_iff] at h
    obtain ⟨u, hu, h⟩ := h
    rw [mkdir, Option.ite_none_left_eq_some] at hu
    obtain ⟨hd, hu⟩ := hu
    cases hu
    obtain ⟨hfree, hfiles, hdirs⟩ := ih h
    refine ⟨List.forall_mem_cons.mpr ⟨hd, hfree⟩, hfiles, fun e => ?_⟩
    rw [hdirs, List.mem_cons, List.mem_cons]
    tauto

theorem foldlM_mkdir_isSome {t : Tree κ} {ds : List (List κ)} (h : ∀ d ∈ ds, d ∉ t.files) :
    (ds.foldlM mkdir t).isSome = true := by
  induction ds generalizing t with
  | nil => rfl
  | cons d ds ih =>
    obtain ⟨hd, hds⟩ := List.forall_mem_cons.mp h
    rw [List.foldlM_cons, mkdir, if_neg hd]
    exact ih hds

/-- What a tree holds after the files `ps` were created in an empty one. -/
structure Holds (t : Tree κ) (ps : List (List κ)) : Prop where
  files : ∀ p, p ∈ t.files ↔ p ∈ ps
  dirs : ∀ d, d ∈ t.dirs ↔ d = [] ∨ ∃ p ∈ ps, d <+: p.dropLast

omit [DecidableEq κ] in
theorem holds_empty : Holds (empty : Tree κ) [] := ⟨by simp [empty], by simp [empty]⟩

/-- Neither path leads through the other. -/
def Apart (p q : List κ) : Prop := ¬p <+: q ∧ ¬q <+: p

omit [DecidableEq κ] in
theorem prefix_dropLast_iff {d p : List κ} (hp : p ≠ []) :
    d <+: p.dropLast ↔ d <+: p ∧ d ≠ p := by
  constructor
  · intro h
    refine ⟨h.trans p.dropLast_prefix, ?_⟩
    rintro rfl
    have hlength := h.length_le
    have hpos := List.length_pos_iff.mpr hp
    rw [List.length_dropLast] at hlength
    omega
  · rintro ⟨h, hne⟩
    refine List.prefix_of_prefix_length_le h p.dropLast_prefix ?_
    have hle := h.length_le
    have hlt : d.length ≠ p.length := fun heq => hne (h.eq_of_length heq)
    rw [List.length_dropLast]
    omega

/-- A file can be created exactly when it has a name and is apart from every file there. -/
theorem create_isSome_iff {t : Tree κ} {ps : List (List κ)} (h : Holds t ps)
    (hps : ∀ q ∈ ps, q ≠ []) (p : List κ) :
    (create t p).isSome = true ↔ p ≠ [] ∧ ∀ q ∈ ps, Apart q p := by
  constructor
  · intro hsome
    obtain ⟨t', ht'⟩ := Option.isSome_iff_exists.mp hsome
    rw [create, Option.bind_eq_bind, Option.bind_eq_some_iff] at ht'
    obtain ⟨u, hu, ht'⟩ := ht'
    obtain ⟨hfree, hfiles, hdirs⟩ := foldlM_mkdir hu
    rw [Option.ite_none_left_eq_some, not_or, hfiles, hdirs, not_or, h.files, h.dirs, not_or]
      at ht'
    obtain ⟨⟨hnew, -, hroot, hdir⟩, -⟩ := ht'
    refine ⟨hroot, fun q hq => ⟨fun hpre => ?_, fun hpre => ?_⟩⟩
    · have hne : q ≠ p := fun heq => hnew (heq ▸ hq)
      have habove := (prefix_dropLast_iff hroot).mpr ⟨hpre, hne⟩
      exact hfree q (List.mem_inits _ _ |>.mpr habove) ((h.files q).mpr hq)
    · have hne : p ≠ q := fun heq => hnew (heq ▸ hq)
      exact hdir ⟨q, hq, (prefix_dropLast_iff (hps q hq)).mpr ⟨hpre, hne⟩⟩
  · rintro ⟨hp, hapart⟩
    have hfree : ∀ d ∈ p.dropLast.inits, d ∉ t.files := by
      intro d hd hfile
      have hd' := (List.mem_inits _ _).mp hd
      exact (hapart d ((h.files d).mp hfile)).1 (hd'.trans p.dropLast_prefix)
    obtain ⟨u, hu⟩ := Option.isSome_iff_exists.mp (foldlM_mkdir_isSome hfree)
    obtain ⟨-, hfiles, hdirs⟩ := foldlM_mkdir hu
    have hnew : ¬(p ∈ u.files ∨ p ∈ u.dirs) := by
      rw [hfiles, hdirs, h.files, h.dirs, List.mem_inits]
      rintro (hmem | hself | rfl | ⟨q, hq, hbelow⟩)
      · exact (hapart p hmem).1 (List.prefix_refl p)
      · exact ((prefix_dropLast_iff hp).mp hself).2 rfl
      · exact hp rfl
      · exact (hapart q hq).2 (hbelow.trans q.dropLast_prefix)
    rw [create, mkdirAll, hu]
    simp [hnew]

theorem create_holds {t t' : Tree κ} {ps : List (List κ)} (h : Holds t ps) {p : List κ}
    (hcreate : create t p = some t') : Holds t' (ps ++ [p]) := by
  rw [create, Option.bind_eq_bind, Option.bind_eq_some_iff] at hcreate
  obtain ⟨u, hu, hcreate⟩ := hcreate
  obtain ⟨-, hfiles, hdirs⟩ := foldlM_mkdir hu
  rw [Option.ite_none_left_eq_some] at hcreate
  obtain ⟨-, hcreate⟩ := hcreate
  cases hcreate
  refine ⟨fun q => ?_, fun d => ?_⟩
  · simp [hfiles, h.files, or_comm]
  · simp only [hdirs, h.dirs, List.mem_inits, List.mem_append, List.mem_singleton, or_and_right,
      exists_or, exists_eq_left]
    rw [or_comm, or_assoc]

theorem createAll_isSome_append {t : Tree κ} {ps : List (List κ)} (h : Holds t ps)
    (hps : ∀ q ∈ ps, q ≠ []) (hapart : ps.Pairwise Apart) (qs : List (List κ)) :
    (createAll t qs).isSome = true ↔
      (∀ q ∈ ps ++ qs, q ≠ []) ∧ (ps ++ qs).Pairwise Apart := by
  induction qs generalizing t ps with
  | nil => simpa [createAll] using ⟨hps, hapart⟩
  | cons q qs ih =>
    have hcreate := create_isSome_iff h hps q
    rw [createAll, List.foldlM_cons, List.append_cons]
    cases hq : create t q with
    | none =>
      refine iff_of_false (by simp) (fun ⟨hne, hpairs⟩ => ?_)
      rw [hq] at hcreate
      have hall := (List.pairwise_append.mp (List.pairwise_append.mp hpairs).1).2.2
      exact absurd (hcreate.mpr ⟨hne q (by simp), fun p hp => hall p hp q (by simp)⟩) (by simp)
    | some u =>
      obtain ⟨hne, hall⟩ := hcreate.mp (by rw [hq]; rfl)
      refine ih (create_holds h hq) ?_ ?_
      · simpa using fun p hp => hp.elim (hps p) (fun heq => heq ▸ hne)
      · exact List.pairwise_append.mpr ⟨hapart, List.pairwise_singleton _ _, by simpa using hall⟩

/-- All files can be created exactly when each has a name and no two meet. -/
theorem createAll_isSome_iff (ps : List (List κ)) :
    (createAll empty ps).isSome = true ↔ (∀ p ∈ ps, p ≠ []) ∧ ps.Pairwise Apart :=
  createAll_isSome_append holds_empty (by simp) .nil ps

/-- The order of creation does not matter. -/
theorem createAll_isSome_perm {ps qs : List (List κ)} (h : ps.Perm qs) :
    (createAll empty ps).isSome = (createAll empty qs).isSome := by
  rw [Bool.eq_iff_iff, createAll_isSome_iff, createAll_isSome_iff,
    h.pairwise_iff (fun {p q} hpq => ⟨hpq.2, hpq.1⟩)]
  exact and_congr_left (fun _ => forall_congr' fun p => by rw [h.mem_iff])

end K3smApis.FileTree
