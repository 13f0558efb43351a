import K3smApis.LockCooldown
import Mathlib.Data.List.Dedup
import Mathlib.Data.List.Sort

/-!
# The lock against the graph

`cmd_lockdiff` of hack/verify-deps.sh. The lines of the lock and of the graph are compared
by module path, and the lock's also by their number. A lock that has two different lines for
one path is compared by the last of them only, and the number of its lines does not give it
away.
-/
namespace K3smApis.Deps

/-- `read_graph`. -/
def readGraph (lines : List Text) : List Text := (lines.map strip).filter (· ≠ [])

/-- `k.split()[0]`. -/
def modulePath (k : Text) : Text := (words k).headD []

/-- The dictionary of lines by path, at a path: the last line wins. -/
def byPath (ks : List Text) (p : Text) : Option Text :=
  (ks.filter (fun k => modulePath k = p)).getLast?

/-- What lockdiff prints. -/
inductive Drift where
  | added (line : Text)
  | removed (line : Text)
  | changed (old new : Text)
  | duplicates
  deriving DecidableEq, Repr

/-- The lines of one path. -/
def driftAt (lock graph : List Text) (p : Text) : Option Drift :=
  match byPath lock p, byPath graph p with
  | some a, some b => if a = b then none else some (.changed a b)
  | some a, none => some (.removed a)
  | none, some b => some (.added b)
  | none, none => none

/-- The order of Python's strings. -/
def textLe : Text → Text → Bool
  | [], _ => true
  | _ :: _, [] => false
  | a :: s, b :: t => a.toNat < b.toNat || (a = b && textLe s t)

/-- The paths of both, sorted. -/
def paths (lock graph : List Text) : List Text :=
  ((lock ++ graph).map modulePath).dedup.mergeSort textLe

def drift (lock graph : List Text) : List Drift :=
  (paths lock graph).filterMap (driftAt lock graph) ++
    (if lock.dedup.length ≠ lock.length then [.duplicates] else [])

/-- `cmd_lockdiff`: its exit code. Without a lock file every module is new. -/
def lockdiff (lockFile : Option (List Text)) (graphFile : List Text) : ℕ :=
  match lockFile with
  | none => if drift [] (readGraph graphFile) = [] then 0 else 1
  | some lines =>
    match readLock lines with
    | .error _ => 1
    | .ok es => if drift (es.map Prod.fst) (readGraph graphFile) = [] then 0 else 1

/-- A line is the last one of its path. -/
def LastLine (ks : List Text) (k : Text) : Prop :=
  ∃ a b, ks = a ++ k :: b ∧ ∀ k' ∈ b, modulePath k' ≠ modulePath k

theorem byPath_eq_some {ks : List Text} {p k : Text} :
    byPath ks p = some k ↔ LastLine ks k ∧ modulePath k = p := by
  induction ks using List.reverseRecOn with
  | nil => simp [byPath, LastLine]
  | append_singleton ks l ih =>
    unfold byPath at ih ⊢
    rw [List.filter_append]
    by_cases hl : modulePath l = p
    · rw [List.filter_cons_of_pos (by simpa using hl), List.filter_nil, List.getLast?_concat]
      constructor
      · rintro ⟨⟩
        exact ⟨⟨ks, [], rfl, by simp⟩, hl⟩
      · rintro ⟨⟨a, b, hks, hlast⟩, hk⟩
        -- the last line of the path is the last line of all
        rcases List.eq_nil_or_concat b with rfl | ⟨b', l', rfl⟩
        · simpa using (List.append_inj' hks rfl).2
        · rw [List.concat_eq_append, ← List.cons_append, ← List.append_assoc] at hks
          obtain rfl : l = l' := by simpa using (List.append_inj' hks rfl).2
          exact absurd (hl.trans hk.symm) (hlast l (by simp))
    · rw [List.filter_cons_of_neg (by simpa using hl), List.filter_nil, List.append_nil, ih]
      refine and_congr_left fun hk => ?_
      constructor
      · rintro ⟨a, b, rfl, hlast⟩
        refine ⟨a, b ++ [l], by simp, fun k' hk' => ?_⟩
        rcases List.mem_append.mp hk' with hk' | hk'
        · exact hlast k' hk'
        · exact List.mem_singleton.mp hk' ▸ fun h => hl (h.trans hk)
      · rintro ⟨a, b, hks, hlast⟩
        rcases List.eq_nil_or_concat b with rfl | ⟨b', l', rfl⟩
        · obtain rfl : l = k := by simpa using (List.append_inj' hks rfl).2
          exact absurd hk hl
        · rw [List.concat_eq_append, ← List.cons_append, ← List.append_assoc] at hks
          exact ⟨a, b', (List.append_inj' hks rfl).1, fun k' hk' => hlast k' (by simp [hk'])⟩

theorem LastLine.mem {ks : List Text} {k : Text} (h : LastLine ks k) : k ∈ ks := by
  obtain ⟨a, b, rfl, -⟩ := h
  simp

/-- With distinct paths every line is the last of its path. -/
theorem lastLine_of_nodup {ks : List Text} (h : (ks.map modulePath).Nodup) {k : Text} :
    LastLine ks k ↔ k ∈ ks := by
  refine ⟨LastLine.mem, fun hk => ?_⟩
  obtain ⟨a, b, rfl⟩ := List.append_of_mem hk
  refine ⟨a, b, rfl, fun k' hk' heq => ?_⟩
  rw [List.map_append, List.map_cons] at h
  have hnotin := (List.nodup_cons.mp h.of_append_right).1
  exact hnotin (heq ▸ List.mem_map_of_mem hk')

/-- Two collections agree at every path when they have the same last lines. -/
theorem byPath_eq_iff {lock graph : List Text} :
    (∀ p, byPath lock p = byPath graph p) ↔ ∀ k, LastLine lock k ↔ LastLine graph k := by
  constructor
  · intro h k
    have hlock : byPath lock (modulePath k) = some k ↔ _ := byPath_eq_some
    have hgraph : byPath graph (modulePath k) = some k ↔ _ := byPath_eq_some
    rw [h] at hlock
    simpa using hlock.symm.trans hgraph
  · intro h p
    apply Option.ext
    intro k
    rw [byPath_eq_some, byPath_eq_some, h k]

theorem driftAt_eq_none {lock graph : List Text} {p : Text} :
    driftAt lock graph p = none ↔ byPath lock p = byPath graph p := by
  unfold driftAt
  cases byPath lock p <;> cases byPath graph p <;> simp

theorem byPath_eq_none {ks : List Text} {p : Text} (h : p ∉ ks.map modulePath) :
    byPath ks p = none := by
  rw [Option.eq_none_iff_forall_ne_some]
  intro k hk
  obtain ⟨hlast, rfl⟩ := byPath_eq_some.mp hk
  exact h (List.mem_map_of_mem hlast.mem)

/-- lockdiff is silent when the last lines agree and no line of the lock is repeated. -/
theorem drift_eq_nil {lock graph : List Text} :
    drift lock graph = [] ↔ (∀ k, LastLine lock k ↔ LastLine graph k) ∧ lock.Nodup := by
  have hpaths : (∀ p ∈ paths lock graph, driftAt lock graph p = none) ↔
      ∀ p, byPath lock p = byPath graph p := by
    simp only [driftAt_eq_none]
    refine ⟨fun h p => ?_, fun h p _ => h p⟩
    by_cases hp : p ∈ paths lock graph
    · exact h p hp
    · have hnone : p ∉ lock.map modulePath ∧ p ∉ graph.map modulePath := by
        simpa [paths, not_or] using hp
      rw [byPath_eq_none hnone.1, byPath_eq_none hnone.2]
  have hlength : lock.dedup.length = lock.length ↔ lock.Nodup := by
    rw [← List.dedup_eq_self]
    exact ⟨(List.dedup_sublist lock).eq_of_length, fun h => by rw [h]⟩
  rw [drift, List.append_eq_nil_iff, List.filterMap_eq_nil_iff, hpaths, byPath_eq_iff]
  refine and_congr_right fun _ => ?_
  rw [← hlength]
  split_ifs with h
  · simpa using h
  · simpa using h

/-- A lock with a line that another of the same path hides: its lines are distinct, two of
them have one path, and the graph has just the last line of every path. -/
def Hidden (lock graph : List Text) : Prop :=
  lock.Nodup ∧ ¬(lock.map modulePath).Nodup ∧ ∀ k, k ∈ graph ↔ LastLine lock k

theorem drift_of_perm {lock graph : List Text} (hgraph : (graph.map modulePath).Nodup)
    (h : lock.Perm graph) : drift lock graph = [] := by
  have hlock : (lock.map modulePath).Nodup := (h.map modulePath).nodup_iff.mpr hgraph
  refine drift_eq_nil.mpr ⟨fun k => ?_, hlock.of_map⟩
  rw [lastLine_of_nodup hlock, lastLine_of_nodup hgraph, h.mem_iff]

/-- When lockdiff is silent, the lock is the graph or hides a line. -/
theorem perm_or_hidden {lock graph : List Text} (hgraph : (graph.map modulePath).Nodup)
    (h : drift lock graph = []) : lock.Perm graph ∨ Hidden lock graph := by
  obtain ⟨hlast, hnodup⟩ := drift_eq_nil.mp h
  by_cases hpaths : (lock.map modulePath).Nodup
  · refine .inl ((List.perm_ext_iff_of_nodup hnodup hgraph.of_map).mpr fun k => ?_)
    rw [← lastLine_of_nodup hpaths, hlast k, lastLine_of_nodup hgraph]
  · exact .inr ⟨hnodup, hpaths, fun k => by rw [hlast k, lastLine_of_nodup hgraph]⟩

theorem Hidden.silent {lock graph : List Text} (hgraph : (graph.map modulePath).Nodup)
    (h : Hidden lock graph) : drift lock graph = [] ∧ ¬lock.Perm graph := by
  obtain ⟨hnodup, hpaths, hlast⟩ := h
  refine ⟨drift_eq_nil.mpr ⟨fun k => ?_, hnodup⟩, fun hperm => ?_⟩
  · rw [lastLine_of_nodup hgraph, hlast k]
  · exact hpaths ((hperm.map modulePath).nodup_iff.mpr hgraph)

theorem lockdiff_eq_zero {lines graphFile : List Text} {es : List LockEntry}
    (h : readLock lines = .ok es) :
    lockdiff (some lines) graphFile = 0 ↔ drift (es.map Prod.fst) (readGraph graphFile) = [] := by
  unfold lockdiff
  dsimp only
  rw [h]
  dsimp only
  split_ifs with hdrift <;> simp [hdrift]

/-- lockdiff exits 0 exactly when the lines of the lock are those of the graph, unless the
lock hides a line behind another of the same path. -/
theorem lockdiff_exact_iff (lines graphFile : List Text) (es : List LockEntry)
    (hlock : readLock lines = .ok es)
    (hgraph : ((readGraph graphFile).map modulePath).Nodup) :
    (lockdiff (some lines) graphFile = 0 ↔ (es.map Prod.fst).Perm (readGraph graphFile)) ↔
      ¬Hidden (es.map Prod.fst) (readGraph graphFile) := by
  rw [lockdiff_eq_zero hlock]
  constructor
  · intro h hidden
    obtain ⟨hsilent, hnot⟩ := hidden.silent hgraph
    exact hnot (h.mp hsilent)
  · intro hshown
    refine ⟨fun hsilent => ?_, drift_of_perm hgraph⟩
    exact (perm_or_hidden hgraph hsilent).resolve_right hshown

/-- A lock with two versions of one module, and the graph that has the later. -/
def hiddenLock : List Text :=
  ["example.com/m v1.0.0 # 2024-01-01T00:00:00Z",
    "example.com/m v1.1.0 # 2024-02-01T00:00:00Z"].map String.toList

def hiddenGraph : List Text := ["example.com/m v1.1.0".toList]

theorem readLock_hiddenLock : readLock hiddenLock =
    .ok [("example.com/m v1.0.0".toList, "2024-01-01T00:00:00Z".toList),
      ("example.com/m v1.1.0".toList, "2024-02-01T00:00:00Z".toList)] := by
  decide

theorem lockdiff_exact_iff_hiddenLock :
    (lockdiff (some hiddenLock) hiddenGraph = 0 ↔
      ["example.com/m v1.0.0".toList, "example.com/m v1.1.0".toList].Perm (readGraph hiddenGraph)) ↔
      ¬Hidden ["example.com/m v1.0.0".toList, "example.com/m v1.1.0".toList]
        (readGraph hiddenGraph) :=
  lockdiff_exact_iff hiddenLock hiddenGraph _ readLock_hiddenLock (by decide)

/-- The lock has a line that the graph does not have, and lockdiff exits 0. -/
theorem hiddenLock_passes :
    lockdiff (some hiddenLock) hiddenGraph = 0 ∧
    ((readGraph hiddenGraph).map modulePath).Nodup ∧
    ∃ es, readLock hiddenLock = .ok es ∧ es.length = 2 ∧
      ¬(es.map Prod.fst).Perm (readGraph hiddenGraph) := by
  refine ⟨(lockdiff_eq_zero readLock_hiddenLock).mpr ?_, by decide, _,
    readLock_hiddenLock, rfl, fun hperm => ?_⟩
  · have hpath : ((["example.com/m v1.0.0".toList, "example.com/m v1.1.0".toList] ++
        readGraph hiddenGraph).map modulePath).dedup = ["example.com/m".toList] := by
      decide
    unfold drift paths
    rw [List.map_cons, List.map_cons, List.map_nil, hpath, List.mergeSort_singleton]
    decide
  · exact absurd hperm.length_eq (by decide)

end K3smApis.Deps
