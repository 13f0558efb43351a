import K3smApis.ArtifactPath
import K3smApis.FileTree

/-!
# Sets of artifact paths

`ValidatePathSet` of `artifact/v1/path.go`: one pass that collects the folded paths, and
one that probes every directory of every path. It accepts the sets that can be laid out as
files in one tree whose names ignore ASCII case.
-/
namespace K3smApis.Artifact
open Check SlashPath FileTree

def maxPaths : ℕ := 4096

/-- The maps `exact` and `folded` of the first pass, the newest entry first. -/
structure Scan where
  exact : List GoString := []
  folded : List (GoString × GoString) := []

/-- `folded[f]`. -/
def Scan.lookup (s : Scan) (f : GoString) : Option GoString :=
  (s.folded.find? (fun e => e.1 = f)).map Prod.snd

/-- One path of the first pass. -/
def scanPath (s : Scan) (p : GoString) : Except PathError Scan := do
  validatePath p
  refuseIf (p ∈ s.exact) ⟨.duplicatePath, [.q p, .s ": "]⟩
  match s.lookup (toLower p) with
  | some prev => .error ⟨.caseCollision, [.q prev, .s " and ", .q p, .s ": "]⟩
  | none => .ok ⟨p :: s.exact, (toLower p, p) :: s.folded⟩

/-- One byte of a path in the second pass. -/
def probe (s : Scan) (p : GoString) (i : ℕ) : Except PathError Unit :=
  if (toLower p)[i]? = some slash then
    match s.lookup ((toLower p).take i) with
    | some file => .error ⟨.fileDirConflict,
        [.q file, .s " is a file and a directory of ", .q p, .s ": "]⟩
    | none => .ok ()
  else .ok ()

def validatePathSet (paths : List GoString) : Except PathError Unit := do
  refuseIf (maxPaths < paths.length)
    ⟨.tooManyPaths, [.d paths.length, .s " paths, at most ", .d maxPaths, .s ": "]⟩
  let s ← paths.foldlM scanPath {}
  paths.forM (fun p => (List.range (toLower p).length).forM (probe s p))

/-- The folded paths that were seen. -/
def Scan.keys (s : Scan) : List GoString := s.folded.map Prod.fst

theorem Scan.lookup_eq_none {s : Scan} {f : GoString} : s.lookup f = none ↔ f ∉ s.keys := by
  rw [lookup, Option.map_eq_none_iff, List.find?_eq_none, keys, List.mem_map]
  constructor
  · rintro h ⟨e, he, rfl⟩
    exact h e he (by simp)
  · intro h e he heq
    exact h ⟨e, he, of_decide_eq_true heq⟩

/-- What the first pass has collected of the paths `ps`. -/
structure Scanned (s : Scan) (ps : List GoString) : Prop where
  keys : ∀ f, f ∈ s.keys ↔ f ∈ ps.map toLower
  exact : ∀ p ∈ s.exact, p ∈ ps

theorem scanPath_ok {s s' : Scan} {ps : List GoString} (h : Scanned s ps) {p : GoString} :
    scanPath s p = .ok s' ↔ validatePath p = .ok () ∧ toLower p ∉ ps.map toLower ∧
      s' = ⟨p :: s.exact, (toLower p, p) :: s.folded⟩ := by
  unfold scanPath
  rw [bind_ok, bind_ok, refuseIf_ok]
  refine and_congr_right (fun _ => ?_)
  cases hlookup : s.lookup (toLower p) with
  | some prev =>
    have hmem : toLower p ∈ ps.map toLower := by
      by_contra hnot
      rw [Scan.lookup_eq_none.mpr (fun hk => hnot ((h.keys _).mp hk))] at hlookup
      cases hlookup
    simp [hmem]
  | none =>
    have hnew : toLower p ∉ ps.map toLower :=
      fun hmem => Scan.lookup_eq_none.mp hlookup ((h.keys _).mpr hmem)
    -- a path seen before was seen folded too
    have hexact : p ∉ s.exact := fun hp => hnew (List.mem_map_of_mem (h.exact p hp))
    simp [hnew, hexact, eq_comm]

theorem Scanned.step {s : Scan} {ps : List GoString} (h : Scanned s ps) (p : GoString) :
    Scanned ⟨p :: s.exact, (toLower p, p) :: s.folded⟩ (ps ++ [p]) := by
  refine ⟨fun f => ?_, fun q hq => ?_⟩
  · have hkeys := h.keys f
    simp only [Scan.keys, List.map_cons, List.mem_cons, List.map_append, List.mem_append,
      List.map_nil, List.not_mem_nil, or_false] at hkeys ⊢
    rw [hkeys, or_comm]
  · rcases List.mem_cons.mp hq with rfl | hq
    · simp
    · exact List.mem_append_left _ (h.exact q hq)

theorem foldlM_scanPath {s : Scan} {ps : List GoString} (h : Scanned s ps) (qs : List GoString) :
    (∃ s', qs.foldlM scanPath s = .ok s') ↔
      (∀ q ∈ qs, validatePath q = .ok ()) ∧ (qs.map toLower).Nodup ∧
        ∀ q ∈ qs, toLower q ∉ ps.map toLower := by
  induction qs generalizing s ps with
  | nil => simp [pure, Except.pure]
  | cons q qs ih =>
    rw [List.foldlM_cons]
    simp only [except_bind_ok, scanPath_ok h]
    constructor
    · rintro ⟨s', _, ⟨hvalid, hnew, rfl⟩, hrest⟩
      obtain ⟨hqs, hnodup, hall⟩ := (ih (h.step q)).mp ⟨s', hrest⟩
      have hsplit : ∀ r ∈ qs, toLower r ∉ ps.map toLower ∧ toLower r ≠ toLower q := by
        intro r hr
        simpa [not_or] using hall r hr
      refine ⟨List.forall_mem_cons.mpr ⟨hvalid, hqs⟩, ?_,
        List.forall_mem_cons.mpr ⟨hnew, fun r hr => (hsplit r hr).1⟩⟩
      rw [List.map_cons, List.nodup_cons]
      refine ⟨fun hmem => ?_, hnodup⟩
      obtain ⟨r, hr, heq⟩ := List.mem_map.mp hmem
      exact (hsplit r hr).2 heq
    · rintro ⟨hvalid, hnodup, hall⟩
      obtain ⟨hq, hqs⟩ := List.forall_mem_cons.mp hvalid
      obtain ⟨hnew, hrest⟩ := List.forall_mem_cons.mp hall
      rw [List.map_cons, List.nodup_cons] at hnodup
      have hfresh : ∀ r ∈ qs, toLower r ∉ (ps ++ [q]).map toLower := by
        intro r hr hmem
        rw [List.map_append, List.mem_append] at hmem
        rcases hmem with hmem | hmem
        · exact hrest r hr hmem
        · have heq : toLower r = toLower q := by simpa using hmem
          exact hnodup.1 (heq ▸ List.mem_map_of_mem hr)
      obtain ⟨s', hs'⟩ := (ih (h.step q)).mpr ⟨hqs, hnodup.2, hfresh⟩
      exact ⟨s', _, ⟨hq, hnew, rfl⟩, hs'⟩

theorem foldlM_scanned {s s' : Scan} {ps : List GoString} (h : Scanned s ps) {qs : List GoString}
    (hscan : qs.foldlM scanPath s = .ok s') : Scanned s' (ps ++ qs) := by
  induction qs generalizing s ps with
  | nil =>
    cases hscan
    simpa using h
  | cons q qs ih =>
    rw [List.foldlM_cons, except_bind_ok] at hscan
    obtain ⟨u, hu, hscan⟩ := hscan
    obtain ⟨-, -, rfl⟩ := (scanPath_ok h).mp hu
    simpa using ih (h.step q) hscan

theorem scanned_nil : Scanned {} [] := ⟨by simp [Scan.keys], by simp⟩

theorem probe_ok {s : Scan} {p : GoString} {i : ℕ} :
    probe s p i = .ok () ↔ (toLower p)[i]? = some slash → (toLower p).take i ∉ s.keys := by
  unfold probe
  split_ifs with hslash
  · rw [← Scan.lookup_eq_none]
    cases s.lookup ((toLower p).take i) <;> simp [hslash]
  · simp [hslash]

/-- The texts before the slashes of a text. -/
theorem exists_slash_iff {a b : GoString} :
    (∃ i < b.length, b[i]? = some slash ∧ b.take i = a) ↔ ∃ rest, b = a ++ slash :: rest := by
  constructor
  · rintro ⟨i, hi, hslash, rfl⟩
    rw [List.getElem?_eq_getElem hi, Option.some.injEq] at hslash
    refine ⟨b.drop (i + 1), ?_⟩
    rw [← hslash, ← List.drop_eq_getElem_cons hi, List.take_append_drop]
  · rintro ⟨rest, rfl⟩
    refine ⟨a.length, by simp, by simp, by simp⟩

/-- The names of a path on a file system that ignores ASCII case. -/
def foldedNames (p : GoString) : List GoString := elements (toLower p)

theorem foldedNames_inj {p q : GoString} :
    foldedNames p = foldedNames q ↔ toLower p = toLower q := by
  constructor
  · intro h
    rw [← joined_elements (toLower p), ← joined_elements (toLower q)]
    exact congrArg joined h
  · exact congrArg elements

theorem foldedNames_ne_nil (p : GoString) : foldedNames p ≠ [] := elements_ne_nil _

/-- A path probes the folded path `f` exactly when `f` names a directory of it. -/
theorem probes_iff {s : Scan} {paths : List GoString} (h : Scanned s paths) (p : GoString) :
    (List.range (toLower p).length).forM (probe s p) = .ok () ↔
      ∀ q ∈ paths, foldedNames q <+: foldedNames p → foldedNames q = foldedNames p := by
  rw [forM_ok]
  simp only [List.mem_range, probe_ok, h.keys]
  constructor
  · intro hprobe q hq hpre
    by_contra hne
    obtain ⟨i, hi, hslash, htake⟩ := exists_slash_iff.mpr (elements_prefix_iff.mpr ⟨hpre, hne⟩)
    exact hprobe i hi hslash (htake ▸ List.mem_map_of_mem hq)
  · intro hall i hi hslash hmem
    obtain ⟨q, hq, heq⟩ := List.mem_map.mp hmem
    obtain ⟨hpre, hne⟩ := elements_prefix_iff.mp (exists_slash_iff.mp ⟨i, hi, hslash, heq.symm⟩)
    exact hne (hall q hq hpre)

theorem validatePathSet_ok {paths : List GoString} :
    validatePathSet paths = .ok () ↔ paths.length ≤ maxPaths ∧
      (∀ p ∈ paths, validatePath p = .ok ()) ∧ (paths.map toLower).Nodup ∧
      ∀ p ∈ paths, ∀ q ∈ paths, foldedNames q <+: foldedNames p →
        foldedNames q = foldedNames p := by
  unfold validatePathSet
  rw [bind_ok, refuseIf_ok, not_lt, except_bind_ok]
  refine and_congr_right (fun _ => ?_)
  have hscan := foldlM_scanPath scanned_nil paths
  constructor
  · rintro ⟨s, hs, hprobe⟩
    obtain ⟨hvalid, hnodup, -⟩ := hscan.mp ⟨s, hs⟩
    have hscanned : Scanned s paths := by simpa using foldlM_scanned scanned_nil hs
    exact ⟨hvalid, hnodup, fun p hp => (probes_iff hscanned p).mp (forM_ok.mp hprobe p hp)⟩
  · rintro ⟨hvalid, hnodup, hpre⟩
    obtain ⟨s, hs⟩ := hscan.mpr ⟨hvalid, hnodup, by simp⟩
    have hscanned : Scanned s paths := by simpa using foldlM_scanned scanned_nil hs
    exact ⟨s, hs, forM_ok.mpr fun p hp => (probes_iff hscanned p).mpr (hpre p hp)⟩

/-- Folded paths that are distinct and none a directory of another can be laid out. -/
theorem layout_iff {paths : List GoString} :
    (createAll empty (paths.map foldedNames)).isSome = true ↔ (paths.map toLower).Nodup ∧
      ∀ p ∈ paths, ∀ q ∈ paths, foldedNames q <+: foldedNames p →
        foldedNames q = foldedNames p := by
  rw [createAll_isSome_iff, List.pairwise_map, List.Nodup, List.pairwise_map]
  constructor
  · rintro ⟨-, hapart⟩
    have hsymm : Std.Symm (fun p q => Apart (foldedNames p) (foldedNames q)) :=
      ⟨fun _ _ h => ⟨h.2, h.1⟩⟩
    constructor
    · refine hapart.imp (fun {p q} h heq => ?_)
      have hsame : foldedNames p = foldedNames q := foldedNames_inj.mpr heq
      exact h.1 (hsame ▸ List.prefix_refl _)
    · intro p hp q hq hpre
      by_contra hne
      have hpq : p ≠ q := fun heq => hne (heq ▸ rfl)
      exact (hapart.forall hp hq hpq).2 hpre
  · rintro ⟨hnodup, hpre⟩
    refine ⟨by simpa using fun p _ => foldedNames_ne_nil p, ?_⟩
    refine hnodup.imp_of_mem (fun {p q} hp hq hne => ⟨fun h => ?_, fun h => ?_⟩)
    · exact hne (foldedNames_inj.mp (hpre q hq p hp h))
    · exact hne (foldedNames_inj.mp (hpre p hp q hq h)).symm

/-- A set is accepted exactly when it is not too large, its paths are valid, and they can be
created as files in one empty tree that ignores ASCII case. Neither the creation nor the
verdict depends on the order. -/
theorem validatePathSet_layout (paths : List GoString) :
    (validatePathSet paths = .ok () ↔ paths.length ≤ 4096 ∧
      (∀ p ∈ paths, validatePath p = .ok ()) ∧
      (createAll empty (paths.map foldedNames)).isSome = true) ∧
    ∀ others, paths.Perm others →
      (createAll empty (others.map foldedNames)).isSome =
        (createAll empty (paths.map foldedNames)).isSome ∧
      (validatePathSet others = .ok () ↔ validatePathSet paths = .ok ()) := by
  have hverdict : ∀ ps, validatePathSet ps = .ok () ↔ ps.length ≤ 4096 ∧
      (∀ p ∈ ps, validatePath p = .ok ()) ∧
      (createAll empty (ps.map foldedNames)).isSome = true := by
    intro ps
    rw [validatePathSet_ok, layout_iff]
    rfl
  refine ⟨hverdict paths, fun others hperm => ?_⟩
  have hlayout := createAll_isSome_perm (hperm.symm.map foldedNames)
  refine ⟨hlayout, ?_⟩
  rw [hverdict, hverdict, hlayout, hperm.length_eq]
  refine and_congr_right (fun _ => and_congr_left (fun _ => ?_))
  exact forall_congr' fun p => by rw [hperm.mem_iff]

theorem validatePathSet_layout_swapped :
    validatePathSet [lit "a/b", lit "a/c"] = .ok () ∧
      validatePathSet [lit "a/c", lit "a/b"] = .ok () := by
  have h : validatePathSet [lit "a/b", lit "a/c"] = .ok () := by decide +kernel
  exact ⟨h, ((validatePathSet_layout _).2 _ (List.Perm.swap _ _ [])).2.mpr h⟩

end K3smApis.Artifact
