import K3smApis.RuneText
import K3smApis.CivilTime

/-!
# The quarantine registry

`parseRegistry` of hack/lib/testresults.go and the functions below it. The regular
expressions of the source are deterministic left to right, so each is a function
that consumes its text.
-/
namespace K3smApis.Quarantine

open Text Civil

def maxEntries : ℕ := 10
def minSigChars : ℕ := 12

def requiredKeys : List Text :=
  ["sig", "owner", "filed", "deadline", "fix", "reason"].map String.toList

/-- What marks a race or sanitizer report. -/
def raceMarkers : List Text :=
  ["WARNING: DATA RACE", "race detected during execution of test", "ThreadSanitizer",
    "AddressSanitizer", "UndefinedBehaviorSanitizer", "LeakSanitizer",
    "MemorySanitizer"].map String.toList

def protectedPathSegments : List (Text × Text) :=
  [("pkg".toList, "certs".toList), ("pkg".toList, "bootstrap".toList),
    ("pkg".toList, "rbac".toList)]

def protectedPackages : List Text := ["k3sm.io/runtimed/pkg/image".toList]

def protectedPackagePrefixes : List Text := ["K3smInstall".toList]

def protectedNameKeywords : List Text :=
  ["signaturepolicy", "sigpolicy", "cosign", "rbac", "k3sminstall"].map String.toList

/-- `parseDate`: `dateRE`, then `time.Parse("2006-01-02", _)`, which wants the day to exist. -/
def parseDate (t : Text) : Option Date :=
  match t with
  | [y0, y1, y2, y3, '-', m0, m1, '-', d0, d1] =>
    if [y0, y1, y2, y3, m0, m1, d0, d1].all Char.isDigit then
      let date : Date := ⟨number [y0, y1, y2, y3], number [m0, m1], number [d0, d1]⟩
      if date.Exists then some date else none
    else none
  | _ => none

/-- `[A-Za-z0-9_]`. -/
def isWord (c : Char) : Bool := c.isAlphanum || c = '_'

/-- `[A-Za-z0-9._~\-]`. -/
def isPathRune (c : Char) : Bool := isWord c || c = '.' || c = '~' || c = '-'

/-- The rest of a text after a literal start. -/
def after? (start t : Text) : Option Text :=
  if start <+: t then some (t.drop start.length) else none

/-- `goIDRE`: the import path and the test's name with its subtest part. -/
def goID (test : Text) : Option (Text × Text) := do
  let pkg := test.takeWhile (fun c => isPathRune c || c = '/')
  if [] ∈ pkg.splitOn '/' then none else
  let name ← after? "::".toList (test.drop pkg.length)
  let tail ← ["Test", "Example", "Fuzz"].findSome? (fun start => after? start.toList name)
  match tail.dropWhile isWord with
  | [] => some (pkg, name)
  | '/' :: sub => if sub ≠ [] ∧ sub.all (!isBlank ·) then some (pkg, name) else none
  | _ => none

/-- `[A-Za-z_][A-Za-z0-9_]*`. -/
def isIdentifier : Text → Bool
  | [] => false
  | c :: t => (c.isAlpha || c = '_') && t.all isWord

/-- `swiftIDRE`: the target, then the suite and the test as one name. -/
def swiftID (test : Text) : Option (Text × Text) :=
  let target := test.takeWhile isWord
  match test.drop target.length with
  | '/' :: name =>
    let suite := name.takeWhile isWord
    match name.drop suite.length with
    | '/' :: case =>
      if isIdentifier target && isIdentifier suite && case ≠ [] && case.all (!isBlank ·) then
        some (target, name)
      else none
    | _ => none
  | _ => none

/-- `splitTestID`: the package and the name of a test id. -/
def splitTestID (test : Text) : Option (Text × Text) :=
  match goID test with
  | some id => some id
  | none => if test.contains "::".toList then none else swiftID test

/-- The first race marker a text carries. -/
def raceMarker (text : Text) : Option Text := raceMarkers.find? (text.contains ·)

/-- `strings.ToLower`, up to runes whose lower case is not ASCII: the keywords it is
compared with are. -/
def toLower (t : Text) : Text :=
  t.map (fun c =>
    if c = Char.ofNat 0x130 then 'i' else if c = Char.ofNat 0x212a then 'k' else c.toLower)

/-- Whether two path segments stand next to each other. -/
def hasPair (pair : Text × Text) : List Text → Bool
  | a :: b :: segs => (a = pair.1 && b = pair.2) || hasPair pair (b :: segs)
  | _ => false

def protectedReason (pkg name : Text) : Option Msg :=
  match protectedPathSegments.find? (hasPair · (pkg.splitOn '/')) with
  | some pair => some [.s "trust surface ", .str pair.1.bytes, .s "/", .str pair.2.bytes]
  | none =>
    match protectedPackages.find? (fun p => pkg = p || pkg.hasPrefix (p ++ ['/'])) with
    | some p => some [.s "trust surface ", .str p.bytes, .s " (signature policy)"]
    | none =>
      match protectedPackagePrefixes.find? (pkg.hasPrefix ·) with
      | some p => some [.s "trust surface ", .str p.bytes]
      | none =>
        match protectedNameKeywords.find? ((toLower name).contains ·) with
        | some k => some [.s "trust surface: test name names ", .q k.bytes]
        | none => none

/-- `\)?\s*$`. -/
def closesDuration : Text → Bool
  | ')' :: t => t.all isBlank
  | t => t.all isBlank

/-- `s\)?\s*$`. -/
def endsDuration : Text → Bool
  | 's' :: t => closesDuration t
  | _ => false

/-- `\d+(?:\.\d+)?s\)?\s*$`: what `durationRE` matches after its parenthesis. -/
def isDuration (t : Text) : Bool :=
  t.takeWhile Char.isDigit ≠ [] &&
    match t.dropWhile Char.isDigit with
    | '.' :: r => r.takeWhile Char.isDigit ≠ [] && endsDuration (r.dropWhile Char.isDigit)
    | r => endsDuration r

/-- `durationRE.ReplaceAllString(t, "(")`: a match reaches the end of the text, so
there is at most one. -/
def cutDuration : Text → Text
  | [] => []
  | c :: t => if c = '(' && isDuration t then ['('] else c :: cutDuration t

/-- The `norm` of `harnessReason`. -/
def norm (t : Text) : Text := t.collapse.trimSpace

/-- The harness's RUN line for a test, its blanks collapsed. -/
def runMark (name : Text) : Text := "=== RUN ".toList ++ name

/-- The harness's FAIL line for a test up to the duration. -/
def failMark (name : Text) : Text := "--- FAIL: ".toList ++ name ++ " (".toList

/-- `harnessReason`: why a signature would match the harness's own lines. -/
def harnessReason (test name sig : Text) : Option Text :=
  let s := norm (cutDuration sig)
  if s = [] then none
  else if test.contains s || test.contains (norm sig) then some "the test id".toList
  else if (runMark name).contains s then
    some ("the harness line === RUN ".toList ++ name)
  else if (failMark name).contains s then
    some ("the harness line --- FAIL: ".toList ++ name)
  else none

/-- The blanks a comment may follow. -/
def isCommentBlank (c : Char) : Bool :=
  c = ' ' || c = '\t' || c = '\r' || c = '\n' || c = '\x0b' || c = '\x0c'

def doubleQuote : Char := Char.ofNat 0x22
def singleQuote : Char := Char.ofNat 0x27

/-- The loop of `stripComment`, with the open quotation and whether the rune before
was a blank. -/
def stripCommentFrom : Option Char → Bool → Text → Text
  | _, _, [] => []
  | some q, _, c :: t =>
    c :: stripCommentFrom (if c = q then none else some q) (isCommentBlank c) t
  | none, prevSpace, c :: t =>
    if c = doubleQuote ∨ c = singleQuote then
      c :: stripCommentFrom (some c) (isCommentBlank c) t
    else if c = '#' ∧ prevSpace then []
    else c :: stripCommentFrom none (isCommentBlank c) t

/-- `stripComment`. -/
def stripComment (line : Text) : Text := stripCommentFrom none true line

inductive SplitError where
  | noEscapedCharacter
  | noClosingQuotation
  deriving DecidableEq, Repr

def SplitError.text : SplitError → String
  | .noEscapedCharacter => "no escaped character"
  | .noClosingQuotation => "no closing quotation"

/-- Where `shellSplit` stands: between words or in one, behind a backslash, or in a
quotation. -/
inductive SplitMode where
  | plain
  | escaped
  | single
  | double
  | doubleEscaped
  deriving DecidableEq, Repr

/-- The loop of `shellSplit`: `word` is the word being read, nil between words. -/
def shellSplitFrom : SplitMode → Option Text → Text → Except SplitError (List Text)
  | .plain, word, [] => .ok word.toList
  | .escaped, _, [] => .error .noEscapedCharacter
  | .single, _, [] => .error .noClosingQuotation
  | .double, _, [] => .error .noClosingQuotation
  | .doubleEscaped, _, [] => .error .noClosingQuotation
  | .plain, word, c :: t =>
    if c = ' ' ∨ c = '\t' ∨ c = '\r' ∨ c = '\n' then
      match word with
      | none => shellSplitFrom .plain none t
      | some w => (w :: ·) <$> shellSplitFrom .plain none t
    else if c = '\\' then shellSplitFrom .escaped word t
    else if c = singleQuote then shellSplitFrom .single (some (word.getD [])) t
    else if c = doubleQuote then shellSplitFrom .double (some (word.getD [])) t
    else shellSplitFrom .plain (some (word.getD [] ++ [c])) t
  | .escaped, word, c :: t => shellSplitFrom .plain (some (word.getD [] ++ [c])) t
  | .single, word, c :: t =>
    if c = singleQuote then shellSplitFrom .plain word t
    else shellSplitFrom .single (some (word.getD [] ++ [c])) t
  | .double, word, c :: t =>
    if c = doubleQuote then shellSplitFrom .plain word t
    else if c = '\\' ∧ (t.head? = some doubleQuote ∨ t.head? = some '\\') then
      shellSplitFrom .doubleEscaped word t
    else shellSplitFrom .double (some (word.getD [] ++ [c])) t
  | .doubleEscaped, word, c :: t => shellSplitFrom .double (some (word.getD [] ++ [c])) t

/-- `shellSplit`. -/
def shellSplit (line : Text) : Except SplitError (List Text) := shellSplitFrom .plain none line

/-- `strings.ReplaceAll(t, "\r\n", "\n")`. -/
def unixLines : Text → Text
  | '\r' :: '\n' :: t => '\n' :: unixLines t
  | c :: t => c :: unixLines t
  | [] => []

structure Entry where
  line : ℕ
  test : Text
  pkg : Text
  sig : Text
  owner : Text
  fix : Text
  deadline : Text
  deadlineDate : Date
  deriving DecidableEq, Repr

/-- `line %d` in front of a registry error. -/
def atLine (lineno : ℕ) (rest : Msg) : Msg := [.s "line ", .d lineno, .s ": "] ++ rest

/-- `keyRE`: a key and its value. -/
def keyValue (tok : Text) : Option (Text × Text) :=
  let k := tok.takeWhile Char.isLower
  match tok.drop k.length with
  | '=' :: v => if k = [] then none else some (k, v)
  | _ => none

/-- The fields of an entry as read so far, and the errors of its tokens. -/
structure Fields where
  values : List (Text × Text) := []
  errs : List Msg := []

/-- `fields[k]`, empty when it is missing. -/
def Fields.get (f : Fields) (k : String) : Text := (f.values.lookup k.toList).getD []

/-- One token of an entry. -/
def Fields.read (lineno : ℕ) (f : Fields) (tok : Text) : Fields :=
  match keyValue tok with
  | none =>
    { f with errs := f.errs ++
      [atLine lineno [.s "token ", .q tok.bytes, .s " is not key=value"]] }
  | some (k, v) =>
    if k ∉ requiredKeys then
      { f with errs := f.errs ++ [atLine lineno [.s "unknown key ", .q k.bytes]] }
    else if ((f.values.lookup k).getD []) ≠ [] then
      { f with errs := f.errs ++ [atLine lineno [.s "key ", .q k.bytes, .s " repeats"]] }
    else if v.trimSpace = [] then
      { f with errs := f.errs ++ [atLine lineno [.s "key ", .q k.bytes, .s " is empty"]] }
    else { f with values := (k, v) :: f.values }

/-- The missing keys, as one error. -/
def Fields.missing (lineno : ℕ) (f : Fields) : List Msg :=
  match requiredKeys.filter (fun k => f.values.lookup k = none) with
  | [] => []
  | ks => [atLine lineno [.s "missing ", .str (Text.bytes (", ".toList.intercalate ks))]]

/-- The fields of an entry's tokens, or every error of them. -/
def readFields (lineno : ℕ) (toks : List Text) : Except (List Msg) Fields :=
  let f := toks.foldl (Fields.read lineno) {}
  let errs := f.errs ++ f.missing lineno
  if errs = [] then .ok f else .error errs

/-- An operation that must give a value, or one registry error. -/
def orRefuse {α : Type} (x : Option α) (e : Msg) : Except (List Msg) α :=
  match x with
  | some a => .ok a
  | none => .error [e]

/-- A finding that refuses the entry. -/
def refuseOn {α : Type} (x : Option α) (e : α → Msg) : Except (List Msg) Unit :=
  match x with
  | some a => .error [e a]
  | none => .ok ()

/-- One entry of the registry from its words; `seen` are the tests listed above it. -/
def parseEntry (seen : List (Text × ℕ)) (lineno : ℕ) (test : Text) (rest : List Text) :
    Except (List Msg) Entry := do
  let (pkg, name) ← orRefuse (splitTestID test) (atLine lineno [.q test.bytes,
    .s " is not a Go <import path>::<TestName> or Swift <Target>/<Suite>/<test> id"])
  let fields ← readFields lineno rest
  let filed ← orRefuse (parseDate (fields.get "filed")) (atLine lineno
    [.s "filed=", .q (fields.get "filed").bytes, .s " is not a YYYY-MM-DD date"])
  let deadline ← orRefuse (parseDate (fields.get "deadline")) (atLine lineno
    [.s "deadline=", .q (fields.get "deadline").bytes, .s " is not a YYYY-MM-DD date"])
  Check.refuseIf (deadline.before filed) [atLine lineno [.s "deadline ",
    .str (fields.get "deadline").bytes, .s " is before filed ", .str (fields.get "filed").bytes]]
  Check.refuseIf ((fields.get "sig").length < minSigChars) [atLine lineno
    [.s "sig is shorter than ", .d minSigChars,
      .s " characters, so it would match nearly any failure"]]
  refuseOn (raceMarker (fields.get "sig")) (fun rm => atLine lineno
    [.s "refused, a race or sanitizer report is never quarantinable (sig carries ",
      .q rm.bytes, .s ")"])
  refuseOn (harnessReason test name (fields.get "sig")) (fun hr => atLine lineno
    [.s "sig occurs in ", .str hr.bytes,
      .s ", so it matches the harness's own lines, not a failure (harness)"])
  refuseOn (protectedReason pkg name) (fun pr => atLine lineno
    ([.s "refused, ", .str test.bytes, .s " can never be quarantined ("] ++ pr ++ [.s ")"]))
  refuseOn (seen.lookup test) (fun prev => atLine lineno
    [.str test.bytes, .s " is already listed on line ", .d prev])
  return { line := lineno, test := test, pkg := pkg, sig := fields.get "sig",
           owner := fields.get "owner", fix := fields.get "fix",
           deadline := fields.get "deadline", deadlineDate := deadline }

/-- The state of `parseRegistry` between two lines. -/
structure Registry where
  entries : List Entry := []
  errs : List Msg := []
  seen : List (Text × ℕ) := []
  listed : ℕ := 0

/-- One line of the registry. -/
def Registry.read (r : Registry) (numbered : Text × ℕ) : Registry :=
  let line := (stripComment numbered.1).trimSpace
  if line = [] then r
  else
    let r := { r with listed := r.listed + 1 }
    match shellSplit line with
    | .error e =>
      { r with errs := r.errs ++
        [atLine numbered.2 [.s "unparseable (", .s e.text, .s ")"]] }
    | .ok [] => r
    | .ok (test :: rest) =>
      match parseEntry r.seen numbered.2 test rest with
      | .error errs => { r with errs := r.errs ++ errs }
      | .ok e => { r with entries := r.entries ++ [e], seen := (test, numbered.2) :: r.seen }

/-- `parseRegistry`: the valid entries and every error. -/
def parseRegistry (text : Text) : List Entry × List Msg :=
  let r := ((unixLines text).lines.zipIdx 1).foldl Registry.read {}
  (r.entries, r.errs ++
    if maxEntries < r.listed then
      [[.s "registry lists ", .d r.listed, .s " entries; at most ", .d maxEntries,
        .s " are allowed"]]
    else [])

/-- A word that was begun is returned. -/
theorem shellSplitFrom_ne_nil {mode : SplitMode} {w t : Text} :
    shellSplitFrom mode (some w) t ≠ .ok [] := by
  induction t generalizing mode w with
  | nil => cases mode <;> simp [shellSplitFrom]
  | cons c t ih =>
    cases mode with
    | plain =>
      simp only [shellSplitFrom]
      split_ifs
      · cases shellSplitFrom .plain none t <;> simp
      all_goals exact ih
    | escaped => exact ih
    | single =>
      simp only [shellSplitFrom]
      split_ifs <;> exact ih
    | double =>
      simp only [shellSplitFrom]
      split_ifs <;> exact ih
    | doubleEscaped => exact ih

/-- `toks[0]` of a trimmed line that is not empty is there. -/
theorem shellSplit_trimSpace_ne_nil {line : Text} (h : line.trimSpace ≠ []) :
    shellSplit line.trimSpace ≠ .ok [] := by
  cases ht : line.trimSpace with
  | nil => exact absurd ht h
  | cons c t =>
    have hc : isSpace c = false := by
      have hd : c ∈ (line.dropWhile isSpace).head? := by
        obtain ⟨r, hr⟩ := List.rdropWhile_prefix isSpace (line.dropWhile isSpace)
        rw [← hr, show (line.dropWhile isSpace).rdropWhile isSpace = c :: t from ht]
        simp
      have hne : line.dropWhile isSpace ≠ [] := by
        intro hnil
        simp [hnil] at hd
      have := List.head_dropWhile_not isSpace hne
      rw [List.head?_eq_some_head hne] at hd
      simpa [Option.mem_some.mp hd] using this
    have hsep : ¬(c = ' ' ∨ c = '\t' ∨ c = '\r' ∨ c = '\n') := by
      rintro (rfl | rfl | rfl | rfl) <;> exact absurd hc (by decide)
    simp only [shellSplit, shellSplitFrom, if_neg hsep]
    split_ifs
    · -- a backslash: the word begins with the rune it escapes, if there is one
      cases t with
      | nil => simp [shellSplitFrom]
      | cons d t => exact shellSplitFrom_ne_nil
    all_goals exact shellSplitFrom_ne_nil

@[simp] theorem orRefuse_ok {α : Type} {x : Option α} {e : Msg} {a : α} :
    orRefuse x e = .ok a ↔ x = some a := by
  cases x <;> simp [orRefuse]

@[simp] theorem refuseOn_ok {α : Type} {x : Option α} {e : α → Msg} :
    refuseOn x e = .ok () ↔ x = none := by
  cases x <;> simp [refuseOn]

/-- What `parseEntry` established of an entry it returns. -/
structure Entry.Accepted (e : Entry) (name : Text) : Prop where
  id : splitTestID e.test = some (e.pkg, name)
  sig_nonblank : e.sig.trimSpace ≠ []
  sig_length : minSigChars ≤ e.sig.length
  sig_race : raceMarker e.sig = none
  sig_harness : harnessReason e.test name e.sig = none
  unprotected : protectedReason e.pkg name = none

/-- Every value read is more than spaces. -/
def Fields.Nonblank (f : Fields) : Prop := ∀ kv ∈ f.values, kv.2.trimSpace ≠ []

theorem Fields.Nonblank.read {f : Fields} (h : f.Nonblank) (lineno : ℕ) (tok : Text) :
    (f.read lineno tok).Nonblank := by
  unfold Fields.read
  cases keyValue tok with
  | none => exact h
  | some kv =>
    dsimp only
    by_cases hkey : kv.1 ∉ requiredKeys
    · rw [if_pos hkey]
      exact h
    rw [if_neg hkey]
    by_cases hrep : (f.values.lookup kv.1).getD [] ≠ []
    · rw [if_pos hrep]
      exact h
    rw [if_neg hrep]
    by_cases hv : kv.2.trimSpace = []
    · rw [if_pos hv]
      exact h
    rw [if_neg hv]
    intro p hp
    rcases List.mem_cons.mp hp with rfl | hp
    · exact hv
    · exact h p hp

theorem foldl_read_nonblank {f : Fields} (h : f.Nonblank) (lineno : ℕ) (toks : List Text) :
    (toks.foldl (Fields.read lineno) f).Nonblank := by
  induction toks generalizing f with
  | nil => exact h
  | cons tok toks ih => exact ih (h.read lineno tok)

theorem Fields.missing_eq_nil {f : Fields} {lineno : ℕ} (h : f.missing lineno = []) {k : Text}
    (hk : k ∈ requiredKeys) : ∃ v, (k, v) ∈ f.values ∧ f.values.lookup k = some v := by
  unfold Fields.missing at h
  split at h
  · next hf =>
    have hne : f.values.lookup k ≠ none := by
      intro hn
      have hmem : k ∈ requiredKeys.filter (fun k => f.values.lookup k = none) :=
        List.mem_filter.mpr ⟨hk, by simp [hn]⟩
      rw [hf] at hmem
      exact absurd hmem List.not_mem_nil
    obtain ⟨v, hv⟩ := Option.ne_none_iff_exists'.mp hne
    refine ⟨v, ?_, hv⟩
    obtain ⟨l, r, hlr, _⟩ := List.lookup_eq_some_iff.mp hv
    rw [hlr]
    simp
  · exact absurd h (List.cons_ne_nil _ _)

/-- A required field of an accepted token list is more than spaces. -/
theorem readFields_nonblank {lineno : ℕ} {toks : List Text} {f : Fields}
    (h : readFields lineno toks = .ok f) {k : String} (hk : k.toList ∈ requiredKeys) :
    (f.get k).trimSpace ≠ [] := by
  simp only [readFields] at h
  split_ifs at h with herr
  obtain ⟨-, hmissing⟩ := List.append_eq_nil_iff.mp herr
  obtain ⟨v, hmem, hv⟩ := Fields.missing_eq_nil hmissing hk
  have hread : (toks.foldl (Fields.read lineno) {}).Nonblank :=
    foldl_read_nonblank (by intro p hp; exact absurd hp List.not_mem_nil) lineno toks
  cases h
  rw [Fields.get, hv]
  exact hread _ hmem

theorem parseEntry_ok {seen : List (Text × ℕ)} {lineno : ℕ} {test : Text} {rest : List Text}
    {e : Entry} (h : parseEntry seen lineno test rest = .ok e) :
    e.test = test ∧ seen.lookup test = none ∧ ∃ name, e.Accepted name := by
  simp only [parseEntry, except_bind_ok, Prod.exists, orRefuse_ok, Unique.exists_iff,
    PUnit.default_eq_unit, Check.refuseIf_ok, refuseOn_ok] at h
  obtain ⟨pkg, name, hid, f, hf, filed, -, deadline, -, -, hlen, hrace, hharness, hprot, hseen,
    he⟩ := h
  cases he
  exact ⟨rfl, hseen, name, hid, readFields_nonblank hf (by decide), not_lt.mp hlen, hrace,
    hharness, hprot⟩

/-- The entries read so far are accepted, and `seen` holds their tests. -/
structure Registry.Good (r : Registry) : Prop where
  accepted : ∀ e ∈ r.entries, ∃ name, e.Accepted name
  seen : ∀ e ∈ r.entries, r.seen.lookup e.test ≠ none
  distinct : (r.entries.map Entry.test).Nodup

theorem Registry.Good.push {r : Registry} (h : r.Good) {e : Entry} {name : Text} {lineno : ℕ}
    (he : e.Accepted name) (hnew : r.seen.lookup e.test = none) :
    ({ r with
      entries := r.entries ++ [e], seen := (e.test, lineno) :: r.seen } : Registry).Good where
  accepted := by
    intro e' he'
    rcases List.mem_append.mp he' with he' | he'
    · exact h.accepted e' he'
    · exact ⟨name, List.mem_singleton.mp he' ▸ he⟩
  seen := by
    intro e' he'
    by_cases heq : e'.test = e.test
    · simp [heq]
    · have hold : e' ∈ r.entries := by
        rcases List.mem_append.mp he' with he' | he'
        · exact he'
        · exact absurd (congrArg Entry.test (List.mem_singleton.mp he')) heq
      simpa [List.lookup_cons, beq_eq_false_iff_ne.mpr heq] using h.seen e' hold
  distinct := by
    rw [List.map_append, List.nodup_append]
    refine ⟨h.distinct, by simp, ?_⟩
    intro t ht t' ht' heq
    obtain ⟨e', he', rfl⟩ := List.mem_map.mp ht
    rw [List.map_singleton, List.mem_singleton] at ht'
    exact h.seen e' he' (by rw [heq, ht', hnew])

theorem Registry.Good.read {r : Registry} (h : r.Good) (numbered : Text × ℕ) :
    (r.read numbered).Good := by
  have hlisted : ({ r with listed := r.listed + 1 } : Registry).Good :=
    ⟨h.accepted, h.seen, h.distinct⟩
  simp only [Registry.read]
  split_ifs
  · exact h
  cases shellSplit (stripComment numbered.1).trimSpace with
  | error e => exact ⟨h.accepted, h.seen, h.distinct⟩
  | ok toks =>
    cases toks with
    | nil => exact hlisted
    | cons test rest =>
      dsimp only
      cases hp : parseEntry r.seen numbered.2 test rest with
      | error errs => exact ⟨h.accepted, h.seen, h.distinct⟩
      | ok e =>
        obtain ⟨rfl, hnew, name, he⟩ := parseEntry_ok hp
        exact hlisted.push he hnew

theorem foldl_read_good {r : Registry} (h : r.Good) (lines : List (Text × ℕ)) :
    (lines.foldl Registry.read r).Good := by
  induction lines generalizing r with
  | nil => exact h
  | cons l lines ih => exact ih (h.read l)

theorem parseRegistry_good (text : Text) :
    (((unixLines text).lines.zipIdx 1).foldl Registry.read {}).Good :=
  foldl_read_good ⟨by simp, by simp, by simp⟩ _

/-- Every entry of a registry passed all of `parseEntry`. -/
theorem parseRegistry_accepted {text : Text} {e : Entry} (he : e ∈ (parseRegistry text).1) :
    ∃ name, e.Accepted name :=
  (parseRegistry_good text).accepted e he

/-- No test is listed twice. -/
theorem parseRegistry_distinct (text : Text) :
    ((parseRegistry text).1.map Entry.test).Nodup :=
  (parseRegistry_good text).distinct

/-- Steps each of which names an error when it fails. -/
theorem bind_ne_error_nil {α β : Type} {x : Except (List Msg) α} {k : α → Except (List Msg) β}
    (hx : x ≠ .error []) (hk : ∀ a, k a ≠ .error []) : (x >>= k) ≠ .error [] := by
  cases x with
  | error errs =>
    intro h
    cases h
    exact hx rfl
  | ok a => exact hk a

theorem orRefuse_ne_error_nil {α : Type} (x : Option α) (e : Msg) : orRefuse x e ≠ .error [] := by
  cases x <;> simp [orRefuse]

theorem refuseOn_ne_error_nil {α : Type} (x : Option α) (e : α → Msg) :
    refuseOn x e ≠ .error [] := by
  cases x <;> simp [refuseOn]

theorem refuseIf_ne_error_nil (p : Prop) [Decidable p] (e : Msg) :
    Check.refuseIf p [e] ≠ .error [] := by
  unfold Check.refuseIf
  split_ifs <;> simp

theorem readFields_ne_error_nil (n : ℕ) (toks : List Text) : readFields n toks ≠ .error [] := by
  unfold readFields
  dsimp only
  split_ifs with h
  · simp
  · simpa using h

theorem parseEntry_ne_error_nil (seen : List (Text × ℕ)) (n : ℕ) (test : Text)
    (rest : List Text) : parseEntry seen n test rest ≠ .error [] := by
  refine bind_ne_error_nil (orRefuse_ne_error_nil _ _) fun id => ?_
  refine bind_ne_error_nil (readFields_ne_error_nil _ _) fun fields => ?_
  refine bind_ne_error_nil (orRefuse_ne_error_nil _ _) fun filed => ?_
  refine bind_ne_error_nil (orRefuse_ne_error_nil _ _) fun deadline => ?_
  refine bind_ne_error_nil (refuseIf_ne_error_nil _ _) fun _ => ?_
  refine bind_ne_error_nil (refuseIf_ne_error_nil _ _) fun _ => ?_
  refine bind_ne_error_nil (refuseOn_ne_error_nil _ _) fun _ => ?_
  refine bind_ne_error_nil (refuseOn_ne_error_nil _ _) fun _ => ?_
  refine bind_ne_error_nil (refuseOn_ne_error_nil _ _) fun _ => ?_
  exact bind_ne_error_nil (refuseOn_ne_error_nil _ _) fun _ => by simp [pure, Except.pure]

/-- Every listed line so far is an entry, unless an error was found. -/
def Registry.Complete (r : Registry) : Prop := r.errs = [] → r.entries.length = r.listed

theorem Registry.Complete.read {r : Registry} (h : r.Complete) (numbered : Text × ℕ) :
    (r.read numbered).Complete := by
  simp only [Registry.read]
  split_ifs with hblank
  · exact h
  cases hsplit : shellSplit (stripComment numbered.1).trimSpace with
  | error e => exact fun herrs => absurd herrs (by simp)
  | ok toks =>
    cases toks with
    | nil => exact absurd hsplit (shellSplit_trimSpace_ne_nil hblank)
    | cons test rest =>
      dsimp only
      cases hp : parseEntry r.seen numbered.2 test rest with
      | error errs =>
        intro herrs
        have hnil : errs = [] := (List.append_eq_nil_iff.mp herrs).2
        exact absurd (hnil ▸ hp) (parseEntry_ne_error_nil _ _ _ _)
      | ok e =>
        intro herrs
        simpa using h herrs

theorem foldl_read_complete {r : Registry} (h : r.Complete) (lines : List (Text × ℕ)) :
    (lines.foldl Registry.read r).Complete := by
  induction lines generalizing r with
  | nil => exact h
  | cons l lines ih => exact ih (h.read l)

theorem Registry.listed_read (r : Registry) (numbered : Text × ℕ) :
    (r.read numbered).listed =
      r.listed + if (stripComment numbered.1).trimSpace = [] then 0 else 1 := by
  simp only [Registry.read]
  split_ifs with hblank
  · rfl
  cases shellSplit (stripComment numbered.1).trimSpace with
  | error e => rfl
  | ok toks =>
    cases toks with
    | nil => rfl
    | cons test rest =>
      dsimp only
      cases parseEntry r.seen numbered.2 test rest <;> rfl

theorem foldl_read_listed (r : Registry) (lines : List (Text × ℕ)) :
    (lines.foldl Registry.read r).listed =
      r.listed + (lines.map Prod.fst).countP (fun raw => (stripComment raw).trimSpace ≠ []) := by
  induction lines generalizing r with
  | nil => rfl
  | cons l lines ih =>
    rw [List.foldl_cons, ih, r.listed_read, List.map_cons, List.countP_cons]
    by_cases hblank : (stripComment l.1).trimSpace = []
    · simp [hblank]
    · simp [hblank, Nat.add_assoc, Nat.add_comm]

/-- A registry without an error has an entry for each line that is not blank, and no more entries
than it may list. -/
theorem parseRegistry_complete {text : Text} (h : (parseRegistry text).2 = []) :
    (parseRegistry text).1.length =
        (unixLines text).lines.countP (fun raw => (stripComment raw).trimSpace ≠ []) ∧
      (parseRegistry text).1.length ≤ maxEntries := by
  obtain ⟨herrs, hmany⟩ := List.append_eq_nil_iff.mp h
  have hall := foldl_read_complete (r := {}) (fun _ => rfl) _ herrs
  have hlisted := foldl_read_listed {} ((unixLines text).lines.zipIdx 1)
  rw [List.zipIdx_map_fst, Nat.zero_add] at hlisted
  refine ⟨hall.trans hlisted, ?_⟩
  by_contra hover
  rw [if_pos (hall ▸ not_le.mp hover)] at hmany
  cases hmany

end K3smApis.Quarantine
