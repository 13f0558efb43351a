import K3smApis.LockUpdate

/-!
# The wrapper graphs

`load_wrappers` and `cmd_sum_graph` of hack/verify-deps.sh: the list hack/deps.wrappers of the
modules a repository builds outside its own go.mod, held against the tracked files, and the
graph of one of them, which is what its go.sum hashes the source of. Ranges of characters are
those of the C locale; awk compares two paths that read as numbers by their value, which only
refuses more lists.
-/
namespace K3smApis.Deps

/-- A line of hack/deps.wrappers. -/
structure Wrapper where
  name : Text
  sum : Text
  lock : Text
  deriving DecidableEq, Repr

inductive WrapperError where
  /-- `not a git checkout` -/
  | notCheckout
  /-- `$ROOT is not the top level of its git checkout` -/
  | notTop
  /-- `$WRAPPERS_FILE is not a regular file` -/
  | notRegular
  /-- `cannot list the tracked files` -/
  | unlistable
  /-- `want '<name> <go.sum> hack/deps-<name>.lock'` -/
  | shape (line : ℕ)
  | badName (line : ℕ) (name : Text)
  /-- `is not a relative path under the repo root` -/
  | badPath (line : ℕ) (path : Text)
  /-- `has a . or .. component` -/
  | dotted (line : ℕ) (path : Text)
  /-- `has a component that starts with -` -/
  | dashed (line : ℕ) (path : Text)
  | symlink (line : ℕ) (path : Text)
  | badLock (line : ℕ) (name lock : Text)
  | nameTwice (line : ℕ) (name : Text)
  | sumTwice (line : ℕ) (sum : Text)
  /-- `is a tracked wrapper graph that no $WRAPPERS_FILE line names` -/
  | unlistedSum (path : Text)
  /-- `is a tracked wrapper module with no listed go.sum beside it` -/
  | unlistedModule (path : Text)
  /-- `is named by no $WRAPPERS_FILE line` -/
  | unlistedLock (path : Text)
  deriving DecidableEq, Repr

/-- The entry at hack/deps.wrappers. -/
inductive ListEntry where
  | absent
  | irregular
  | file (text : Text)

/-- What `load_wrappers` finds: the locale's `[[:space:]]`, the answers of git, the list, the
symbolic links on disk or in the index, the paths `git ls-files` prints for `*go.sum.txt` and
`*go.mod.txt`, and the files `hack/deps-*.lock`. -/
structure Checkout where
  space : Char → Bool
  inside : Bool
  top : Bool
  list : ListEntry
  symlink : Text → Bool
  sums : Option (List Text)
  mods : Option (List Text)
  locks : List Text

/-- The lines `while IFS= read -r line || [ -n "$line" ]` reads. -/
def shellLines (t : Text) : List Text :=
  if t.lines.getLast? = some [] then t.lines.dropLast else t.lines

/-- A `#` stands behind white space. -/
def spaceHash (space : Char → Bool) : Text → Bool
  | c :: d :: t => space c && d = '#' || spaceHash space (d :: t)
  | _ => false

/-- A line with a comment is cut at its first `#`, which need not start the comment. -/
def uncomment (space : Char → Bool) (line : Text) : Text :=
  if line.head? = some '#' || spaceHash space line then line.takeWhile (· ≠ '#') else line

/-- The fields of `read -r name sum lock extra`; what is behind the third is `extra`. -/
def fields (line : Text) : List Text := (line.splitOnP isIfs).filter (· ≠ [])

/-- `^[a-z0-9][a-z0-9-]*$` -/
def isName : Text → Bool
  | [] => false
  | c :: t => (c.isLower || c.isDigit) && t.all (fun c => c.isLower || c.isDigit || c = '-')

/-- `[A-Za-z0-9._-]` -/
def isPathChar (c : Char) : Bool := c.isAlphanum || c = '.' || c = '_' || c = '-'

/-- `^[A-Za-z0-9._-]+(/[A-Za-z0-9._-]+)*$` -/
def isRelative (p : Text) : Bool := (p.splitOn '/').all (fun c => c ≠ [] && c.all isPathChar)

/-- The checks of one path of line `n`. -/
def checkPath (symlink : Text → Bool) (n : ℕ) (p : Text) : List WrapperError :=
  if isRelative p then
    (if "/./".toList <:+: '/' :: (p ++ ['/']) ∨ "/../".toList <:+: '/' :: (p ++ ['/']) then
      [.dotted n p] else []) ++
    (if "/-".toList <:+: '/' :: p then [.dashed n p] else []) ++
    if symlink p then [.symlink n p] else []
  else [.badPath n p]

/-- `hack/deps-$name.lock` -/
def lockOf (name : Text) : Text := "hack/deps-".toList ++ name ++ ".lock".toList

/-- The wrappers so far, and what is wrong so far. -/
structure WrapperScan where
  wrappers : List Wrapper
  bad : List WrapperError

/-- The checks of a line of three fields whose name is well formed. -/
def checkWrapper (symlink : Text → Bool) (n : ℕ) (ws : List Wrapper) (w : Wrapper) :
    List WrapperError :=
  checkPath symlink n w.sum ++ checkPath symlink n w.lock ++
    (if w.lock = lockOf w.name then [] else [.badLock n w.name w.lock]) ++
    if w.name ∈ ws.map Wrapper.name then [.nameTwice n w.name]
    else if w.sum ∈ ws.map Wrapper.sum then [.sumTwice n w.sum]
    else []

/-- One round of the loop. A wrapper that is wrong is listed all the same. -/
def WrapperScan.read (c : Checkout) (n : ℕ) (s : WrapperScan) (line : Text) : WrapperScan :=
  match fields (uncomment c.space line) with
  | [] => s
  | [name, sum, lock] =>
    if isName name then
      { wrappers := s.wrappers ++ [⟨name, sum, lock⟩]
        bad := s.bad ++ checkWrapper c.symlink n s.wrappers ⟨name, sum, lock⟩ }
    else { s with bad := s.bad ++ [.badName n name] }
  | _ => { s with bad := s.bad ++ [.shape n] }

/-- The loop from line `n` on. -/
def scanWrappers (c : Checkout) : ℕ → WrapperScan → List Text → WrapperScan
  | _, s, [] => s
  | n, s, line :: lines => scanWrappers c (n + 1) (s.read c n line) lines

/-- `hack/testdata/*` -/
def isFixture (p : Text) : Bool := p.hasPrefix "hack/testdata/".toList

/-- `dirname` of a path of the index, and the same cut in awk. -/
def dirName (p : Text) : Text :=
  if '/' ∈ p then (p.rdropWhile (· ≠ '/')).dropLast else ['.']

/-- The tracked graphs, the tracked modules and the locks that no line names. -/
def unlisted (ws : List Wrapper) (sums mods locks : List Text) : List WrapperError :=
  (sums.filter (fun p => !isFixture p && p ∉ ws.map Wrapper.sum)).map .unlistedSum ++
    (mods.filter (fun p => !isFixture p && dirName p ∉ ws.map (fun w => dirName w.sum))).map
      .unlistedModule ++
    (locks.filter (fun p => p ∉ ws.map Wrapper.lock)).map .unlistedLock

/-- The wrappers of the list; a repository without a list has none. -/
def ListEntry.scan (c : Checkout) : ListEntry → Except (List WrapperError) WrapperScan
  | .absent => .ok ⟨[], []⟩
  | .irregular => .error [.notRegular]
  | .file text => .ok (scanWrappers c 1 ⟨[], []⟩ (shellLines text))

/-- `load_wrappers` -/
def loadWrappers (c : Checkout) : Except (List WrapperError) (List Wrapper) := do
  Check.refuseIf (c.inside = false) [.notCheckout]
  Check.refuseIf (c.top = false) [.notTop]
  let s ← c.list.scan c
  match c.sums, c.mods with
  | some sums, some mods =>
    match s.bad ++ unlisted s.wrappers sums mods c.locks with
    | [] => .ok s.wrappers
    | bad => .error bad
  | _, _ => .error [.unlistable]

inductive SumError where
  /-- `not a go.sum line` -/
  | badLine (line : ℕ)
  /-- `is hashed at two versions` -/
  | twoVersions (path old new : Text)
  /-- `hashes no module source` -/
  | empty
  deriving DecidableEq, Repr

/-- A line boundary of `str.splitlines`. -/
def isLineEnd (c : Char) : Bool :=
  (0x0a ≤ c.toNat && c.toNat ≤ 0x0d) || (0x1c ≤ c.toNat && c.toNat ≤ 0x1e) || c.toNat = 0x85 ||
    c.toNat = 0x2028 || c.toNat = 0x2029

/-- `f.read().splitlines()` of a file opened as text. -/
def splitlines (text : Text) : List Text :=
  let ls := (Lines.universal text).splitOnP isLineEnd
  if ls.getLast? = some [] then ls.dropLast else ls

/-- `"/go.mod"`, the end of the version of a line that hashes no source. -/
def goMod : Text := "/go.mod".toList

/-- One line of a go.sum, with the modules above it. -/
def sumLine (n : ℕ) (mods : List (Text × Text)) (line : Text) :
    Except SumError (List (Text × Text)) :=
  match words line with
  | [] => .ok mods
  | [p, v, hash] =>
    if ¬"h1:".toList <+: hash then .error (.badLine n)
    else if goMod <:+ v then .ok mods
    else
      match mods.lookup p with
      | none => .ok (mods ++ [(p, v)])
      | some old => if old = v then .ok mods else .error (.twoVersions p old v)
  | _ => .error (.badLine n)

/-- The lines of a go.sum from line `n` on. -/
def sumLines (n : ℕ) (mods : List (Text × Text)) : List Text → Except SumError (List (Text × Text))
  | [] => .ok mods
  | line :: lines => do
    let mods ← sumLine n mods line
    sumLines (n + 1) mods lines

/-- The line of a module version. -/
def moduleLine (m : Text × Text) : Text := m.1 ++ ' ' :: m.2

/-- `cmd_sum_graph` -/
def sumGraph (text : Text) : Except SumError Text := do
  let mods ← sumLines 1 [] (splitlines text)
  if mods = [] then .error .empty
  else .ok (Lines.terminated '\n'
    ((mods.mergeSort (fun a b => textLe a.1 b.1)).map moduleLine))

/-- The parts of a text, each with a separator behind it. -/
theorem terminated_splitOn (sep : Char) (t : Text) :
    Lines.terminated sep (t.splitOn sep) = t ++ [sep] := by
  rw [Lines.terminated_eq_intercalate (List.splitOn_ne_nil _ _), List.intercalate_splitOn]

/-- A component of a path is found between two slashes. -/
theorem infix_of_mem_splitOn {p c : Text} (h : c ∈ p.splitOn '/') :
    '/' :: (c ++ ['/']) <:+: '/' :: (p ++ ['/']) := by
  have hslash (a : List Text) : ∃ x, '/' :: Lines.terminated '/' a = x ++ ['/'] := by
    rcases List.eq_nil_or_concat a with rfl | ⟨a', l, rfl⟩
    · exact ⟨[], rfl⟩
    · exact ⟨'/' :: (Lines.terminated '/' a' ++ l), by simp [Lines.terminated]⟩
  obtain ⟨a, b, hsplit⟩ := List.append_of_mem h
  obtain ⟨x, hx⟩ := hslash a
  refine ⟨x, Lines.terminated '/' b, ?_⟩
  calc x ++ '/' :: (c ++ ['/']) ++ Lines.terminated '/' b
      = (x ++ ['/']) ++ (c ++ '/' :: Lines.terminated '/' b) := by simp
    _ = '/' :: (p ++ ['/']) := by
      rw [← hx, ← terminated_splitOn, hsplit]
      simp [Lines.terminated]

/-- A relative path that stays under the root and is no option. -/
def CleanPath (p : Text) : Prop :=
  ∀ c ∈ p.splitOn '/', c ≠ [] ∧ c ≠ ['.'] ∧ c ≠ ['.', '.'] ∧ c.head? ≠ some '-' ∧
    c.all isPathChar = true

theorem checkPath_eq_nil {symlink : Text → Bool} {n : ℕ} {p : Text}
    (h : checkPath symlink n p = []) : CleanPath p ∧ symlink p = false := by
  by_cases hrel : isRelative p = true
  case neg =>
    rw [checkPath, if_neg hrel] at h
    cases h
  rw [checkPath, if_pos hrel, List.append_eq_nil_iff, List.append_eq_nil_iff] at h
  have hno {P : Prop} [Decidable P] {e : WrapperError} (h : (if P then [e] else []) = []) : ¬P := by
    rintro hp
    rw [if_pos hp] at h
    cases h
  obtain ⟨⟨hdots, hdash⟩, hlink⟩ := h
  replace hdots := hno hdots
  replace hdash := hno hdash
  refine ⟨fun c hc => ?_, by simpa using hno hlink⟩
  have hcomponent := List.all_eq_true.mp hrel c hc
  rw [Bool.and_eq_true, decide_eq_true_eq] at hcomponent
  have hinfix := infix_of_mem_splitOn hc
  refine ⟨hcomponent.1, ?_, ?_, fun hhead => hdash ?_, hcomponent.2⟩
  · rintro rfl
    exact hdots (.inl hinfix)
  · rintro rfl
    exact hdots (.inr hinfix)
  · obtain ⟨d, c', rfl⟩ := List.exists_cons_of_ne_nil hcomponent.1
    obtain rfl : d = '-' := by simpa using hhead
    have hpair : "/-".toList <:+: '/' :: (p ++ ['/']) :=
      List.IsInfix.trans ⟨[], c' ++ ['/'], rfl⟩ hinfix
    obtain ⟨a, b, hab⟩ := hpair
    -- the pair does not end at the slash that was added
    rcases List.eq_nil_or_concat b with rfl | ⟨b', l, rfl⟩
    · have hlast := congrArg List.getLast? hab
      rw [← List.cons_append, List.getLast?_concat] at hlast
      simp at hlast
    · refine ⟨a, b', ?_⟩
      rw [List.concat_eq_append, ← List.append_assoc, ← List.cons_append] at hab
      exact (List.append_inj' hab rfl).1

/-- A listed wrapper. -/
structure Wrapper.Placed (symlink : Text → Bool) (w : Wrapper) : Prop where
  name : isName w.name = true
  lock : w.lock = lockOf w.name
  paths : ∀ p ∈ [w.sum, w.lock], CleanPath p ∧ symlink p = false

/-- A list without errors. -/
structure ListedOnce (symlink : Text → Bool) (ws : List Wrapper) : Prop where
  names : (ws.map Wrapper.name).Nodup
  sums : (ws.map Wrapper.sum).Nodup
  placed : ∀ w ∈ ws, w.Placed symlink

theorem ListedOnce.concat {symlink : Text → Bool} {n : ℕ} {ws : List Wrapper} {w : Wrapper}
    (h : ListedOnce symlink ws) (hname : isName w.name = true)
    (hcheck : checkWrapper symlink n ws w = []) : ListedOnce symlink (ws ++ [w]) := by
  simp only [checkWrapper, List.append_eq_nil_iff] at hcheck
  obtain ⟨⟨⟨hsum, hlock⟩, hlockOf⟩, htwice⟩ := hcheck
  split_ifs at hlockOf htwice with hown hsame hlisted
  refine ⟨?_, ?_, fun w' hw' => ?_⟩
  · rw [List.map_append]
    exact h.names.append (List.nodup_singleton _) (by simpa using hsame)
  · rw [List.map_append]
    exact h.sums.append (List.nodup_singleton _) (by simpa using hlisted)
  · rcases List.mem_append.mp hw' with hw' | hw'
    · exact h.placed w' hw'
    · obtain rfl := List.mem_singleton.mp hw'
      refine ⟨hname, hown, fun p hp => ?_⟩
      rcases List.mem_cons.mp hp with rfl | hp
      · exact checkPath_eq_nil hsum
      · rw [List.mem_singleton.mp hp]
        exact checkPath_eq_nil hlock

theorem lockOf_injective : Function.Injective lockOf := by
  intro a b hab
  unfold lockOf at hab
  exact (List.append_right_injective _) (List.append_left_injective _ hab)

/-- Every wrapper has a lock of its own, and none has the repository's. -/
theorem ListedOnce.locks {symlink : Text → Bool} {ws : List Wrapper} (h : ListedOnce symlink ws) :
    (ws.map Wrapper.lock).Nodup ∧ "hack/deps.lock".toList ∉ ws.map Wrapper.lock := by
  have hmap : ws.map Wrapper.lock = (ws.map Wrapper.name).map lockOf := by
    rw [List.map_map]
    exact List.map_congr_left fun w hw => (h.placed w hw).lock
  rw [hmap]
  refine ⟨h.names.map lockOf_injective, fun hmem => ?_⟩
  obtain ⟨name, -, hname⟩ := List.mem_map.mp hmem
  have hprefix : "hack/deps-".toList <+: "hack/deps.lock".toList :=
    ⟨name ++ ".lock".toList, (List.append_assoc _ _ _).symm.trans hname⟩
  exact absurd hprefix (by decide)

/-- A line of a go.sum that hashes the source of a module version. -/
def LineHashes (line : Text) (m : Text × Text) : Prop :=
  ∃ hash, words line = [m.1, m.2, hash] ∧ "h1:".toList <+: hash ∧ ¬goMod <:+ m.2

/-- A go.sum hashes the source of a module version. -/
def Hashes (text : Text) (m : Text × Text) : Prop := ∃ line ∈ splitlines text, LineHashes line m

theorem Hashes.isQuery {text : Text} {m : Text × Text} (h : Hashes text m) :
    IsQuery ⟨m.1, m.2⟩ := by
  obtain ⟨line, -, hash, hwords, -⟩ := h
  exact ⟨word_of_mem_words (t := line) (by simp [hwords]),
    word_of_mem_words (t := line) (by simp [hwords])⟩

end K3smApis.Deps
