import K3smApis.QuarantineVerdict
import K3smApis.KeyedList

/-!
# The test stream

The collector of hack/lib/testresults.go, which turns a `go test -json` stream into one
result per test id, and `run`, which exits by the verdict on them. `json.Unmarshal` of a
line is a parameter.
-/
namespace K3smApis.Quarantine

open Text Civil

/-- The action of an event. -/
inductive Action where
  | run
  | output
  | pass
  | skip
  | fail
  /-- `build-fail`. -/
  | buildFail
  /-- Another `build-` action. -/
  | build (step : Text)
  /-- The empty text. -/
  | none
  /-- Any other text, such as `start`, `pause` and `cont`. -/
  | other (name : Text)
  deriving DecidableEq, Repr

/-- `strings.HasPrefix(Action, "build-")`. -/
def Action.isBuild : Action → Bool
  | .buildFail => true
  | .build _ => true
  | _ => false

/-- One line of the stream, decoded. -/
structure Event where
  action : Action
  package : Text := []
  importPath : Text := []
  test : Text := []
  output : Text := []
  deriving DecidableEq, Repr

/-- The state of the collector. `tests` is the map of the source in the order of its
keys' first events, `pkgText` the same of the packages' own output. -/
structure Collector where
  echo : List Text := []
  tests : List Result := []
  errs : List Msg := []
  pkgOrder : List Text := []
  pkgHasFail : List Text := []
  pkgText : List (Text × Text) := []
  buildFail : List Text := []
  text : List Text := []

/-- The result of a test id, changed; a new one if it has none yet. -/
def updateTest (id : Text) (f : Result → Result) : List Result → List Result
  | [] => [f { test := id }]
  | r :: rs => if r.test = id then f r :: rs else r :: updateTest id f rs

/-- A package's own output with more of it. -/
def addText (pkg out : Text) : List (Text × Text) → List (Text × Text)
  | [] => [(pkg, out)]
  | (p, t) :: ps => if p = pkg then (p, t ++ out) :: ps else (p, t) :: addText pkg out ps

/-- What an event does to the result of its test. -/
def Result.record (ev : Event) (r : Result) : Result :=
  match ev.action with
  | .run => { r with isOpen := true }
  | .output =>
    { r with output := r.output ++ ev.output, run := r.run ++ ev.output, isOpen := true }
  | .pass =>
    { r with status := if r.status = .fail then .fail else .pass, run := [], isOpen := false }
  | .skip =>
    { r with status := if r.status = .fail then .fail else .skip, run := [], isOpen := false }
  | .fail =>
    { r with status := .fail, failedRuns := r.failedRuns ++ [r.run], run := [], isOpen := false }
  | _ => r

/-- The id of an event's test. -/
def Event.id (ev : Event) : Text := ev.package ++ "::".toList ++ ev.test

namespace Collector

/-- An event of a build. -/
def buildEvent (c : Collector) (ev : Event) : Collector :=
  { c with
    text := c.text ++ [ev.output]
    echo := c.echo ++ [ev.output]
    buildFail := if ev.action = .buildFail then c.buildFail ++ [ev.importPath] else c.buildFail }

/-- An event of a package outside any test. -/
def packageEvent (c : Collector) (ev : Event) : Collector :=
  match ev.action with
  | .output =>
    { c with
      pkgText := addText ev.package ev.output c.pkgText
      text := c.text ++ [ev.output]
      echo := if ev.output = "PASS\n".toList then c.echo else c.echo ++ [ev.output] }
  | .fail =>
    if ev.package ∈ c.pkgOrder then c else { c with pkgOrder := c.pkgOrder ++ [ev.package] }
  | _ => c

/-- The output of the run in progress of a test. -/
def runOf (c : Collector) (id : Text) : Text :=
  ((c.tests.find? (fun r => r.test = id)).map Result.run).getD []

/-- An event of a test. -/
def testEvent (c : Collector) (ev : Event) : Collector :=
  { c with
    tests := updateTest ev.id (Result.record ev) c.tests
    text := if ev.action = .output then c.text ++ [ev.output] else c.text
    pkgHasFail := if ev.action = .fail then c.pkgHasFail ++ [ev.package] else c.pkgHasFail
    echo := if ev.action = .fail then c.echo ++ [c.runOf ev.id] else c.echo }

/-- An event of line `n`. -/
def event (c : Collector) (n : ℕ) (ev : Event) : Collector :=
  if ev.package = [] ∧ ev.importPath ≠ [] ∧ ev.action.isBuild then c.buildEvent ev
  else if ev.package = [] ∨ ev.action = .none then
    { c with errs := c.errs ++ [[.s "line ", .d n, .s ": event without Package/Action"]] }
  else if ev.test = [] then c.packageEvent ev
  else c.testEvent ev

/-- `collector.line`: line `n` of the stream. -/
def line (decode : Text → Option Event) (c : Collector) (numbered : Text × ℕ) : Collector :=
  if numbered.1.trimSpace = [] then c
  else
    match decode numbered.1 with
    | none => { c with errs := c.errs ++ [[.s "line ", .d numbered.2, .s ": not JSON"]] }
    | some ev => c.event numbered.2 ev

/-- The result of a test, without a status while a run is in progress. -/
def reported (r : Result) : Result := if r.isOpen then { r with status := .noResult } else r

/-- The packages whose own output carries a race or sanitizer report. -/
def raced (c : Collector) : List Text :=
  (c.pkgText.filter (fun p => (raceMarker p.2).isSome)).map Prod.fst

/-- The failure of a package outside any test. -/
def outsideFailure (pkg : Text) (suffix output : String) (detail : Text) : Result :=
  { test := pkg ++ "::".toList ++ suffix.toList, status := .fail,
    output := output.toList ++ detail }

/-- `collector.results`. -/
def results (c : Collector) : List Result :=
  c.tests.map reported ++
  c.pkgText.filterMap (fun p => (raceMarker p.2).map (outsideFailure p.1 "(package)"
    "package output carries a race or sanitizer report outside any test: ")) ++
  (c.pkgOrder.filter (fun p => p ∉ c.pkgHasFail && p ∉ c.raced)).map
    (fun p => outsideFailure p "(package)" "package failed outside any test" []) ++
  c.buildFail.map (fun p => outsideFailure p "(build)" "build failed" [])

end Collector

/-- The collector after a stream. -/
def collect (decode : Text → Option Event) (stream : List Text) : Collector :=
  (stream.zipIdx 1).foldl (Collector.line decode) {}

/-- The exit statuses 0, 1, 2 and 3. -/
inductive Exit where
  | green
  | red
  | usage
  | excused
  deriving DecidableEq, Repr

/-- What reading the registry file gave. -/
inductive RegistryFile where
  | contents (t : Text)
  | missing
  | unreadable (path err : Text)
  deriving DecidableEq, Repr

/-- The value of `-tier`. -/
def parseTier (flag : Text) : Option Tier :=
  if flag = "fast".toList ∨ flag = "affected".toList then some .fast
  else if flag = "full".toList then some .full
  else none

/-- The value of `-today`; empty for the clock's day. -/
def parseToday (flag : Text) (clock : Date) : Option Date :=
  if flag = [] then some clock else parseDate flag

/-- `summaryRE`. -/
def isSummaryLine (l : Text) : Bool :=
  Text.hasPrefix (l.dropWhile (fun c => c = ' ' || c = '\t')) "--- FAIL:".toList ||
    l.hasPrefix "FAIL ".toList || l.hasPrefix "FAIL\t".toList || l.hasPrefix "panic:".toList

/-- How often a text that does not overlap itself occurs. -/
def count (s : Text) : Text → ℕ
  | [] => 0
  | c :: t => (if s <+: c :: t then 1 else 0) + count s t

/-- The number of failing results. -/
def failures (results : List Result) : ℕ := (results.filter (fun r => r.status = .fail)).length

/-- The lines in front of the report. -/
def summary (c : Collector) (tier : Tier) (results : List Result) (entries : List Entry) :
    List Msg :=
  let failed := failures results
  let sum := (Text.lines c.text.flatten).filter isSummaryLine
  let races := count "WARNING: DATA RACE".toList c.text.flatten
  [[.s "==> test results: tier ", .s (if tier = .fast then "fast" else "full"), .s ", ",
    .d results.length, .s " tests, ", .d failed, .s " failed, ", .d entries.length,
    .s " quarantine entr", .s (if entries.length = 1 then "y" else "ies")]] ++
  (if failed = 0 then []
    else [.s "    failing tests:"] ::
      if sum = [] then [[.s "    (no FAIL line; read the output above)"]]
      else sum.map (fun l => [.s "    ", .str l.bytes])) ++
  (if races = 0 then [] else [[.s "    data races reported: ", .d races]])

/-- The last line of the report. -/
def verdictLine (excused : ℕ) : Exit → Msg
  | .green => [.s "ok"]
  | .excused => [.s "ok (", .d excused, .s " failure", .s (if excused = 1 then "" else "s"),
      .s " excused by the registry)"]
  | _ => [.s "RED"]

/-- `run` past its flags and its registry. -/
def judgeStream (decode : Text → Option Event) (registry : Text) (tier : Tier)
    (edited : List Text) (today : Date) (stream : List Text) (readErr : Option Text) :
    Exit × List Msg :=
  let c := collect decode stream
  let errs := c.errs ++ (readErr.map (fun e =>
    ([.s "reading the stream: ", .str e.bytes] : Msg))).toList
  let results := c.results
  let (red, excused, lines) := evaluate registry results tier edited today
  let empty := decide (results = []) && decide (errs = [])
  let exit : Exit :=
    if red || decide (errs ≠ []) || empty then .red
    else if excused > 0 then .excused
    else if failures results > 0 then .red
    else .green
  (exit, c.echo.map (fun t => [Piece.str t.bytes]) ++
    summary c tier results (parseRegistry registry).1 ++
    errs.map ([.s "RED test stream: "] ++ ·) ++ lines ++
    (if empty then [[.s "RED test stream holds no results"]] else []) ++
    [verdictLine excused exit])

/-- `run`: the exit status and what is printed. -/
def run (decode : Text → Option Event) (tierFlag todayFlag : Text) (clock : Date)
    (registry : RegistryFile) (edited : List Text) (stream : List Text) (readErr : Option Text) :
    Exit × List Msg :=
  match parseTier tierFlag with
  | none => (.usage, [[.s "testresults: -tier must be fast or full"]])
  | some tier =>
    match parseToday todayFlag clock with
    | none => (.usage, [[.s "testresults: -today is not a YYYY-MM-DD date"]])
    | some today =>
      match registry with
      | .contents text => judgeStream decode text tier edited today stream readErr
      | .missing => judgeStream decode [] tier edited today stream readErr
      | .unreadable path err =>
        (.red, [[.s "RED registry ", .str path.bytes, .s " unreadable: ", .str err.bytes]])

/-- An event of a build: it has an import path and no package. -/
def Event.isBuildEvent (ev : Event) : Bool :=
  ev.package = [] && ev.importPath ≠ [] && ev.action.isBuild

/-- An event that names its package and its action. -/
def Event.isNamed (ev : Event) : Bool := ev.package ≠ [] && ev.action ≠ .none

/-- An event of a test. -/
def Event.isTest (ev : Event) : Bool := ev.isNamed && ev.test ≠ []

/-- A package's fail event. -/
def Event.isPackageFail (ev : Event) : Bool :=
  ev.isNamed && ev.test = [] && ev.action = .fail

/-- A blank line, or a line that decodes to an event of a build, a package or a test. -/
def isWellFormed (decode : Text → Option Event) (raw : Text) : Bool :=
  raw.trimSpace = [] || (decode raw).any (fun ev => ev.isBuildEvent || ev.isNamed)

/-- The events of a stream, in order. -/
def events (decode : Text → Option Event) (stream : List Text) : List Event :=
  stream.filterMap (fun raw => if raw.trimSpace = [] then none else decode raw)

/-- The results of the tests after some events. -/
def testsOf (evs : List Event) : List Result :=
  (evs.filter Event.isTest).foldl (fun ts ev => updateTest ev.id (Result.record ev) ts) []

section Collecting

variable {decode : Text → Option Event}

theorem events_append (s t : List Text) :
    events decode (s ++ t) = events decode s ++ events decode t :=
  List.filterMap_append

theorem testsOf_concat (evs : List Event) (ev : Event) : testsOf (evs ++ [ev]) =
    if ev.isTest then updateTest ev.id (Result.record ev) (testsOf evs) else testsOf evs := by
  rw [testsOf, List.filter_append, List.foldl_append]
  split_ifs with h
  · simp [testsOf, h]
  · simp [testsOf, h]

/-- What an event does to the collector, by its kind. -/
theorem Collector.event_cases (c : Collector) (n : ℕ) (ev : Event) :
    (ev.isBuildEvent = true ∧ ev.isNamed = false ∧ c.event n ev = c.buildEvent ev) ∨
    (ev.isBuildEvent = false ∧ ev.isNamed = false ∧ c.event n ev =
      { c with errs := c.errs ++ [[.s "line ", .d n, .s ": event without Package/Action"]] }) ∨
    (ev.isBuildEvent = false ∧ ev.isNamed = true ∧ ev.test = [] ∧
      c.event n ev = c.packageEvent ev) ∨
    (ev.isBuildEvent = false ∧ ev.isNamed = true ∧ ev.test ≠ [] ∧
      c.event n ev = c.testEvent ev) := by
  unfold Collector.event
  by_cases hbuild : ev.package = [] ∧ ev.importPath ≠ [] ∧ ev.action.isBuild = true
  · refine .inl ⟨?_, ?_, if_pos hbuild⟩
    · simp [Event.isBuildEvent, hbuild]
    · simp [Event.isNamed, hbuild.1]
  have hb : ev.isBuildEvent = false := by
    rw [Bool.eq_false_iff]
    intro hb
    exact hbuild (by simpa [Event.isBuildEvent, and_assoc] using hb)
  rw [if_neg hbuild]
  by_cases hbad : ev.package = [] ∨ ev.action = .none
  · refine .inr (.inl ⟨hb, ?_, if_pos hbad⟩)
    rcases hbad with h | h <;> simp [Event.isNamed, h]
  rw [if_neg hbad]
  have hn : ev.isNamed = true := by simpa [Event.isNamed] using hbad
  by_cases htest : ev.test = []
  · exact .inr (.inr (.inl ⟨hb, hn, htest, if_pos htest⟩))
  · exact .inr (.inr (.inr ⟨hb, hn, htest, if_neg htest⟩))

/-- A fail event of a test. -/
def Event.isTestFail (ev : Event) : Bool := ev.isTest && ev.action = .fail

/-- An output event of a package outside any test. -/
def Event.isPackageOutput (ev : Event) : Bool :=
  ev.isNamed && ev.test = [] && ev.action = .output

/-- A failed build. -/
def Event.isBuildFail (ev : Event) : Bool := ev.isBuildEvent && ev.action = .buildFail

/-- The packages with a fail event, in the order of their first. -/
def failedPackages (evs : List Event) : List Text :=
  (evs.filter Event.isPackageFail).foldl
    (fun ps ev => if ev.package ∈ ps then ps else ps ++ [ev.package]) []

/-- The output of each package outside its tests. -/
def packageText (evs : List Event) : List (Text × Text) :=
  (evs.filter Event.isPackageOutput).foldl (fun ps ev => addText ev.package ev.output ps) []

/-- The fields of the collector that its results are made of. -/
structure Gathered (evs : List Event) (c : Collector) : Prop where
  tests : c.tests = testsOf evs
  hasFail : c.pkgHasFail = (evs.filter Event.isTestFail).map Event.package
  order : c.pkgOrder = failedPackages evs
  text : c.pkgText = packageText evs
  build : c.buildFail = (evs.filter Event.isBuildFail).map Event.importPath

theorem failedPackages_concat (evs : List Event) (ev : Event) : failedPackages (evs ++ [ev]) =
    if ev.isPackageFail ∧ ev.package ∉ failedPackages evs then
      failedPackages evs ++ [ev.package] else failedPackages evs := by
  rw [failedPackages, List.filter_append, List.foldl_append]
  by_cases h : ev.isPackageFail = true
  · simp [h, failedPackages, ite_not]
  · simp [h, failedPackages]

theorem packageText_concat (evs : List Event) (ev : Event) : packageText (evs ++ [ev]) =
    if ev.isPackageOutput then addText ev.package ev.output (packageText evs)
    else packageText evs := by
  rw [packageText, List.filter_append, List.foldl_append]
  by_cases h : ev.isPackageOutput = true
  · simp [h, packageText]
  · simp [h, packageText]

theorem Gathered.extend {evs : List Event} {c c' : Collector} {ev : Event} (h : Gathered evs c)
    (htests : c'.tests = if ev.isTest then updateTest ev.id (Result.record ev) c.tests else c.tests)
    (hhas : c'.pkgHasFail = if ev.isTestFail then c.pkgHasFail ++ [ev.package] else c.pkgHasFail)
    (horder : c'.pkgOrder = if ev.isPackageFail ∧ ev.package ∉ c.pkgOrder then
      c.pkgOrder ++ [ev.package] else c.pkgOrder)
    (htext : c'.pkgText = if ev.isPackageOutput then addText ev.package ev.output c.pkgText
      else c.pkgText)
    (hbuild : c'.buildFail = if ev.isBuildFail then c.buildFail ++ [ev.importPath]
      else c.buildFail) :
    Gathered (evs ++ [ev]) c' where
  tests := by rw [testsOf_concat, htests, h.tests]
  hasFail := by
    rw [hhas, h.hasFail, List.filter_append, List.map_append]
    split_ifs with hev <;> simp [hev]
  order := by rw [failedPackages_concat, horder, h.order]
  text := by rw [packageText_concat, htext, h.text]
  build := by
    rw [hbuild, h.build, List.filter_append, List.map_append]
    split_ifs with hev <;> simp [hev]

theorem Gathered.event {evs : List Event} {c : Collector} (h : Gathered evs c) (n : ℕ)
    (ev : Event) : Gathered (evs ++ [ev]) (c.event n ev) := by
  rcases c.event_cases n ev with ⟨hb, hn, hc⟩ | ⟨hb, hn, hc⟩ | ⟨hb, hn, htest, hc⟩ |
    ⟨hb, hn, htest, hc⟩
  · rw [hc]
    apply h.extend <;> simp [Collector.buildEvent, Event.isTest, Event.isTestFail,
      Event.isPackageFail, Event.isPackageOutput, Event.isBuildFail, hb, hn]
  · rw [hc]
    apply h.extend <;> simp [Event.isTest, Event.isTestFail, Event.isPackageFail,
      Event.isPackageOutput, Event.isBuildFail, hb, hn]
  · rw [hc]
    unfold Collector.packageEvent
    cases hact : ev.action with
    | fail =>
      dsimp only
      split_ifs with hmem
      all_goals apply h.extend <;> simp [Event.isTest, Event.isTestFail, Event.isPackageFail,
        Event.isPackageOutput, Event.isBuildFail, hb, hn, htest, hact, hmem]
    | _ =>
      apply h.extend <;> simp [Event.isTest, Event.isTestFail, Event.isPackageFail,
        Event.isPackageOutput, Event.isBuildFail, hb, hn, htest, hact]
  · rw [hc]
    apply h.extend <;> simp [Collector.testEvent, Event.isTest, Event.isTestFail,
      Event.isPackageFail, Event.isPackageOutput, Event.isBuildFail, hb, hn, htest]

theorem mem_failedPackages {evs : List Event} {pkg : Text} :
    pkg ∈ failedPackages evs ↔ ∃ ev ∈ evs, ev.isPackageFail = true ∧ ev.package = pkg := by
  induction evs using List.reverseRecOn with
  | nil => simp [failedPackages]
  | append_singleton evs ev ih =>
    rw [exists_mem_concat, ← ih, failedPackages_concat]
    split_ifs with hev
    · simp [hev.1, eq_comm]
    · rw [not_and_not_right] at hev
      refine ⟨.inl, fun h => h.elim id ?_⟩
      rintro ⟨hfail, rfl⟩
      exact hev hfail

theorem Collector.errs_packageEvent (c : Collector) (ev : Event) :
    (c.packageEvent ev).errs = c.errs := by
  unfold Collector.packageEvent
  cases ev.action with
  | fail =>
    dsimp only
    split_ifs <;> rfl
  | _ => rfl

/-- An event that is neither a build's, a package's nor a test's is one error. -/
theorem length_errs_event (c : Collector) (n : ℕ) (ev : Event) : (c.event n ev).errs.length =
    c.errs.length + if (ev.isBuildEvent || ev.isNamed) = true then 0 else 1 := by
  rcases c.event_cases n ev with ⟨hb, hn, hc⟩ | ⟨hb, hn, hc⟩ | ⟨hb, hn, htest, hc⟩ |
    ⟨hb, hn, htest, hc⟩
  · simp [hc, hb, Collector.buildEvent]
  · simp [hc, hb, hn]
  · simp [hc, hn, c.errs_packageEvent ev]
  · simp [hc, hn, Collector.testEvent]

/-- The number of lines that are out of place. -/
def malformed (decode : Text → Option Event) (stream : List Text) : ℕ :=
  stream.countP (fun raw => !isWellFormed decode raw)

theorem Gathered.line {stream : List Text} {c : Collector}
    (h : Gathered (events decode stream) c) (herrs : c.errs.length = malformed decode stream)
    (raw : Text) (n : ℕ) :
    Gathered (events decode (stream ++ [raw])) (c.line decode (raw, n)) ∧
      (c.line decode (raw, n)).errs.length = malformed decode (stream ++ [raw]) := by
  rw [events_append, malformed, List.countP_append, ← malformed, ← herrs]
  simp only [Collector.line]
  by_cases hblank : raw.trimSpace = []
  · simpa [events, hblank, isWellFormed] using h
  rw [if_neg hblank]
  cases hdec : decode raw with
  | none =>
    have hev : events decode [raw] = [] := by simp [events, hblank, hdec]
    rw [hev, List.append_nil]
    exact ⟨⟨h.tests, h.hasFail, h.order, h.text, h.build⟩, by simp [isWellFormed, hblank, hdec]⟩
  | some ev =>
    have hev : events decode [raw] = [ev] := by simp [events, hblank, hdec]
    rw [hev]
    refine ⟨h.event n ev, ?_⟩
    rw [length_errs_event]
    by_cases hok : (ev.isBuildEvent || ev.isNamed) = true
    · simp [isWellFormed, hblank, hdec, hok]
    · simp [isWellFormed, hblank, hdec, hok]

theorem foldl_line_gathered {stream : List Text} {c : Collector}
    (h : Gathered (events decode stream) c) (herrs : c.errs.length = malformed decode stream)
    (lines : List Text) (n : ℕ) :
    Gathered (events decode (stream ++ lines)) ((lines.zipIdx n).foldl (Collector.line decode) c) ∧
      ((lines.zipIdx n).foldl (Collector.line decode) c).errs.length =
        malformed decode (stream ++ lines) := by
  induction lines generalizing stream c n with
  | nil => simpa using ⟨h, herrs⟩
  | cons raw lines ih =>
    obtain ⟨hline, hlen⟩ := h.line herrs raw n
    rw [List.zipIdx_cons, List.foldl_cons, List.append_cons]
    exact ih hline hlen (n + 1)

theorem collect_gathered (stream : List Text) :
    Gathered (events decode stream) (collect decode stream) ∧
      (collect decode stream).errs.length = malformed decode stream := by
  have hempty : Gathered (events decode []) {} := by
    constructor <;> simp [events, testsOf, failedPackages, packageText]
  exact foldl_line_gathered hempty (by simp [malformed]) stream 1

theorem wellFormed_of_errs {stream : List Text} (h : (collect decode stream).errs = []) :
    ∀ raw ∈ stream, isWellFormed decode raw = true := by
  have hnone : malformed decode stream = 0 := by
    rw [← (collect_gathered stream).2, h]
    rfl
  intro raw hraw
  simpa using List.countP_eq_zero.mp hnone raw hraw

end Collecting

/-- Whether an event is one of the test `id`. -/
def Event.isOf (id : Text) (ev : Event) : Bool := ev.isTest && ev.id = id

/-- The events of one test. -/
def historyOf (id : Text) (evs : List Event) : List Event := evs.filter (Event.isOf id)

/-- The result a test's own events give. -/
def resultOf (id : Text) (history : List Event) : Result :=
  history.foldl (fun r ev => Result.record ev r) { test := id }

@[simp] theorem record_test (ev : Event) (r : Result) : (Result.record ev r).test = r.test := by
  unfold Result.record
  cases ev.action <;> rfl

theorem resultOf_concat (id : Text) (h : List Event) (ev : Event) :
    resultOf id (h ++ [ev]) = Result.record ev (resultOf id h) := by
  simp [resultOf]

theorem updateTest_eq_upsert (id : Text) (f : Result → Result) (ts : List Result) :
    updateTest id f ts = KeyedList.upsert Result.test id { test := id } f ts := by
  induction ts with
  | nil => rfl
  | cons r ts ih => rw [updateTest, KeyedList.upsert, ih]

theorem find?_updateTest (f : Result → Result) (hf : ∀ r, (f r).test = r.test) (id id' : Text)
    (ts : List Result) : (updateTest id f ts).find? (fun r => r.test = id') =
      if id' = id then some (f ((ts.find? (fun r => r.test = id)).getD { test := id }))
      else ts.find? (fun r => r.test = id') := by
  have hnew : ({ test := id } : Result).test = id := rfl
  rw [updateTest_eq_upsert, KeyedList.find?_upsert hnew hf]

theorem historyOf_concat (id : Text) (evs : List Event) (ev : Event) :
    historyOf id (evs ++ [ev]) =
      if ev.isOf id then historyOf id evs ++ [ev] else historyOf id evs := by
  rw [historyOf, List.filter_append]
  by_cases h : ev.isOf id = true
  · simp [historyOf, h]
  · simp [historyOf, h]

/-- The collector's result of a test is what the test's own events give. -/
theorem find?_testsOf (id : Text) (evs : List Event) :
    (testsOf evs).find? (fun r => r.test = id) =
      if historyOf id evs = [] then none else some (resultOf id (historyOf id evs)) := by
  induction evs using List.reverseRecOn with
  | nil => rfl
  | append_singleton evs ev ih =>
    rw [testsOf_concat, historyOf_concat]
    by_cases htest : ev.isTest = true
    · rw [if_pos htest, find?_updateTest _ (record_test ev)]
      by_cases hid : id = ev.id
      · subst hid
        have hof : ev.isOf ev.id = true := by simp [Event.isOf, htest]
        rw [if_pos rfl, ih, if_pos hof, resultOf_concat]
        by_cases hh : historyOf ev.id evs = []
        · simp [hh, resultOf]
        · simp [hh]
      · have hof : ¬ev.isOf id = true := by simp [Event.isOf, Ne.symm hid]
        rw [if_neg hid, ih, if_neg hof]
    · have hof : ¬ev.isOf id = true := by simp [Event.isOf, htest]
      rw [if_neg htest, ih, if_neg hof]

/-- A fail event of a test makes its status a failure for good. -/
theorem resultOf_status {id : Text} {h : List Event} (hfail : ∃ ev ∈ h, ev.action = .fail) :
    (resultOf id h).status = .fail := by
  induction h using List.reverseRecOn with
  | nil => simp at hfail
  | append_singleton h ev ih =>
    rw [resultOf_concat]
    by_cases hold : ∃ ev ∈ h, ev.action = .fail
    · have hst := ih hold
      unfold Result.record
      cases ev.action <;> simp [hst]
    · have hev : ev.action = .fail := (exists_mem_concat.mp hfail).resolve_left hold
      simp [Result.record, hev]

section Exit

variable {decode : Text → Option Event} {registry : Text} {tier : Tier} {edited : List Text}
  {today : Date} {stream : List Text} {readErr : Option Text}

/-- A result without a status reds the run. -/
theorem evaluate_of_noResult {results : List Result} {r : Result} (hr : r ∈ results)
    (hno : r.status = .noResult) : (evaluate registry results tier edited today).1 = true := by
  by_contra hred
  rw [Bool.not_eq_true] at hred
  exact (evaluate_fst.mp hred).2.2.1 r hr (.inl hno)

theorem judgeStream_of_red
    (h : (evaluate registry (collect decode stream).results tier edited today).1 = true) :
    (judgeStream decode registry tier edited today stream readErr).1 = .red := by
  simp [judgeStream, h]

/-- An exit that is not red: nothing the stream or the registry has reds it. -/
theorem judgeStream_not_red
    (h : (judgeStream decode registry tier edited today stream readErr).1 ≠ .red) :
    (evaluate registry (collect decode stream).results tier edited today).1 = false ∧
      (collect decode stream).errs = [] ∧ readErr = none ∧
      (collect decode stream).results ≠ [] := by
  simp only [judgeStream] at h
  split_ifs at h with hred
  · exact absurd rfl h
  all_goals
    simp only [Bool.or_eq_true, not_or, Bool.not_eq_true, decide_eq_true_eq, Bool.and_eq_true,
      List.append_eq_nil_iff, Option.toList_eq_nil_iff, Option.map_eq_none_iff, ne_eq,
      not_not] at hred
    obtain ⟨⟨hred, herrs, hread⟩, hempty⟩ := hred
    exact ⟨hred, herrs, hread, fun hnil => hempty ⟨hnil, herrs, hread⟩⟩

/-- A green exit excused nothing. -/
theorem judgeStream_green
    (h : (judgeStream decode registry tier edited today stream readErr).1 = .green) :
    (evaluate registry (collect decode stream).results tier edited today).2.1 = 0 := by
  simp only [judgeStream] at h
  split_ifs at h with hred hexc
  exact Nat.eq_zero_of_not_pos hexc

theorem judgeStream_excused
    (h : (judgeStream decode registry tier edited today stream readErr).1 = .excused) :
    0 < (evaluate registry (collect decode stream).results tier edited today).2.1 := by
  simp only [judgeStream] at h
  split_ifs at h with hred hexc
  exact hexc

/-- Something is excused when a failing result is. -/
theorem excused_pos_iff {results : List Result} :
    0 < (evaluate registry results tier edited today).2.1 ↔
      ∃ r ∈ results, IsExcused (parseRegistry registry).1 tier edited r := by
  have hcounts : Counts (parseRegistry registry).1 tier edited results _ := tally_counts results
  have hcount : (evaluate registry results tier edited today).2.1 =
      (tally (parseRegistry registry).1 tier edited results).quarantined.length := hcounts.excused
  rw [hcount, List.length_pos_iff_exists_mem]
  constructor
  · rintro ⟨x, hx⟩
    obtain ⟨r, hr, hex, -⟩ := (hcounts.quarantined x).mp hx
    exact ⟨r, hr, hex⟩
  · rintro ⟨r, hr, hex⟩
    exact ⟨r.test, (hcounts.quarantined _).mpr ⟨r, hr, hex, rfl⟩⟩

/-- Something is excused in the fast tier only, and it failed. -/
theorem fast_of_excused {results : List Result}
    (h : 0 < (evaluate registry results tier edited today).2.1) :
    tier = .fast ∧ ∃ r ∈ results, r.status = .fail := by
  obtain ⟨r, hr, hfail, e, -, hex⟩ := excused_pos_iff.mp h
  exact ⟨hex.fast, r, hr, hfail⟩

/-- The stream reported no failure and holds no line out of place. -/
structure CleanStream (decode : Text → Option Event) (stream : List Text) (readErr : Option Text) :
    Prop where
  tests : ∀ ev ∈ events decode stream, ev.isTest = true → ev.action ≠ .fail
  packages : ∀ ev ∈ events decode stream, ev.isPackageFail = false
  builds : ∀ ev ∈ events decode stream, ev.isBuildEvent = true → ev.action ≠ .buildFail
  wellFormed : ∀ raw ∈ stream, isWellFormed decode raw = true
  read : readErr = none

/-- The result of a test with events is among the results, without a status if a run of
it is in progress. -/
theorem reported_mem_results {id : Text} (h : historyOf id (events decode stream) ≠ []) :
    Collector.reported (resultOf id (historyOf id (events decode stream))) ∈
      (collect decode stream).results := by
  have hfind := find?_testsOf id (events decode stream)
  rw [if_neg h, ← (collect_gathered stream).1.tests] at hfind
  have hmem := List.mem_map_of_mem (f := Collector.reported) (List.mem_of_find?_eq_some hfind)
  simp only [Collector.results, List.mem_append]
  exact .inl (.inl (.inl hmem))

/-- A stream whose results hold no failure, and a status for each test, has no fail
event. -/
theorem no_fail_event (hfail : ∀ r ∈ (collect decode stream).results, r.status ≠ .fail)
    (hres : ∀ r ∈ (collect decode stream).results, r.status ≠ .noResult) :
    (∀ ev ∈ events decode stream, ev.isTest = true → ev.action ≠ .fail) ∧
    (∀ ev ∈ events decode stream, ev.isPackageFail = false) ∧
    (∀ ev ∈ events decode stream, ev.isBuildEvent = true → ev.action ≠ .buildFail) := by
  have hcol : Gathered (events decode stream) _ := (collect_gathered stream).1
  have htests : ∀ ev ∈ events decode stream, ev.isTest = true → ev.action ≠ .fail := by
    intro ev hev htest hact
    have hmem : ev ∈ historyOf ev.id (events decode stream) :=
      List.mem_filter.mpr ⟨hev, by simp [Event.isOf, htest]⟩
    have hr := reported_mem_results (List.ne_nil_of_mem hmem)
    have hst : (resultOf ev.id (historyOf ev.id (events decode stream))).status = .fail :=
      resultOf_status ⟨ev, hmem, hact⟩
    cases hopen : (resultOf ev.id (historyOf ev.id (events decode stream))).isOpen with
    | true =>
      rw [Collector.reported, if_pos hopen] at hr
      exact hres _ hr rfl
    | false =>
      rw [Collector.reported, if_neg (by simp [hopen])] at hr
      exact hfail _ hr hst
  refine ⟨htests, ?_, ?_⟩
  · intro ev hev
    rw [Bool.eq_false_iff]
    intro hpkg
    have horder : ev.package ∈ (collect decode stream).pkgOrder := by
      rw [hcol.order]
      exact mem_failedPackages.mpr ⟨ev, hev, hpkg, rfl⟩
    have hhas : ev.package ∉ (collect decode stream).pkgHasFail := by
      rw [hcol.hasFail, List.mem_map]
      rintro ⟨e, he, -⟩
      obtain ⟨he, hfailed⟩ := List.mem_filter.mp he
      rw [Event.isTestFail, Bool.and_eq_true, decide_eq_true_iff] at hfailed
      exact htests e he hfailed.1 hfailed.2
    by_cases hraced : ev.package ∈ (collect decode stream).raced
    · obtain ⟨p, hp, -⟩ := List.mem_map.mp hraced
      obtain ⟨hp, hmark⟩ := List.mem_filter.mp hp
      obtain ⟨rm, hrm⟩ := Option.isSome_iff_exists.mp hmark
      refine hfail (Collector.outsideFailure p.1 "(package)"
        "package output carries a race or sanitizer report outside any test: " rm) ?_ rfl
      simp only [Collector.results, List.mem_append]
      exact .inl (.inl (.inr (List.mem_filterMap.mpr ⟨p, hp, by rw [hrm, Option.map_some]⟩)))
    · refine hfail (Collector.outsideFailure ev.package "(package)"
        "package failed outside any test" []) ?_ rfl
      simp only [Collector.results, List.mem_append]
      refine .inl (.inr (List.mem_map.mpr ⟨ev.package, List.mem_filter.mpr ⟨horder, ?_⟩, rfl⟩))
      simp [hhas, hraced]
  · intro ev hev hb hact
    refine hfail (Collector.outsideFailure ev.importPath "(build)" "build failed" []) ?_ rfl
    simp only [Collector.results, List.mem_append]
    refine .inr (List.mem_map.mpr ⟨ev.importPath, ?_, rfl⟩)
    rw [hcol.build]
    exact List.mem_map_of_mem (List.mem_filter.mpr ⟨hev, by simp [Event.isBuildFail, hb, hact]⟩)

theorem cleanStream_of_green
    (h : (judgeStream decode registry tier edited today stream readErr).1 = .green) :
    CleanStream decode stream readErr ∧ (collect decode stream).results ≠ [] := by
  obtain ⟨hred, herrs, hread, hne⟩ := judgeStream_not_red (by rw [h]; decide)
  have hnone := judgeStream_green h
  have hres : ∀ r ∈ (collect decode stream).results, r.status ≠ .noResult := by
    intro r hr hno
    rw [evaluate_of_noResult hr hno] at hred
    exact absurd hred (by decide)
  obtain ⟨htests, hpackages, hbuilds⟩ := no_fail_event (no_failure_of_unexcused hred hnone) hres
  exact ⟨⟨htests, hpackages, hbuilds, wellFormed_of_errs herrs, hread⟩, hne⟩

end Exit

/-- The registry `run` works with, if the file could be read. -/
def RegistryFile.text : RegistryFile → Option Text
  | .contents text => some text
  | .missing => some []
  | .unreadable _ _ => none

/-- `run` judges the stream, or ends before it reads one. -/
theorem run_cases (decode : Text → Option Event) (tierFlag todayFlag : Text) (clock : Date)
    (file : RegistryFile) :
    (∃ tier today registry, parseTier tierFlag = some tier ∧
      parseToday todayFlag clock = some today ∧ file.text = some registry ∧
      ∀ edited stream readErr, run decode tierFlag todayFlag clock file edited stream readErr =
        judgeStream decode registry tier edited today stream readErr) ∨
    ∃ exit msgs, (exit = Exit.usage ∨ exit = Exit.red) ∧
      (parseTier tierFlag = none ∨ parseToday todayFlag clock = none ∨ file.text = none) ∧
      ∀ edited stream readErr,
        run decode tierFlag todayFlag clock file edited stream readErr = (exit, msgs) := by
  unfold run
  cases htier : parseTier tierFlag with
  | none => exact .inr ⟨_, _, .inl rfl, .inl rfl, fun _ _ _ => rfl⟩
  | some tier =>
    cases htoday : parseToday todayFlag clock with
    | none => exact .inr ⟨_, _, .inl rfl, .inr (.inl rfl), fun _ _ _ => rfl⟩
    | some today =>
      cases file with
      | contents text => exact .inl ⟨tier, today, text, rfl, rfl, rfl, fun _ _ _ => rfl⟩
      | missing => exact .inl ⟨tier, today, [], rfl, rfl, rfl, fun _ _ _ => rfl⟩
      | unreadable path err => exact .inr ⟨_, _, .inr rfl, .inr (.inr rfl), fun _ _ _ => rfl⟩

/-- An exit status of 0 or 3 comes from judging the stream. -/
theorem run_eq_judgeStream {decode : Text → Option Event} {tierFlag todayFlag : Text} {clock : Date}
    {file : RegistryFile} {edited stream : List Text} {readErr : Option Text} {exit : Exit}
    (h : (run decode tierFlag todayFlag clock file edited stream readErr).1 = exit)
    (hexit : exit = .green ∨ exit = .excused) :
    ∃ tier today registry, parseTier tierFlag = some tier ∧
      (judgeStream decode registry tier edited today stream readErr).1 = exit := by
  rcases run_cases decode tierFlag todayFlag clock file with
    ⟨tier, today, registry, htier, -, -, hrun⟩ | ⟨early, msgs, hearly, -, hrun⟩
  · exact ⟨tier, today, registry, htier, by rw [← hrun, h]⟩
  · rw [hrun] at h
    rcases hexit with rfl | rfl <;> rcases hearly with rfl | rfl <;> cases h

/-- The verdict, exactly: over results of distinct ids `evaluate` is not red iff the run
is green. An exit status of 0 says that the stream held at least one result, no fail
event of a test, a package or a build, no line that is out of place, and was read to
its end. An exit status of 3 is given in the fast tier only, over such lines, with a
failing result. -/
theorem quarantine_verdict (decode : Text → Option Event) :
    (∀ (registry : Text) (tier : Tier) (edited : List Text) (today : Date)
      (results : List Result), (results.map Result.test).Nodup →
      ((evaluate registry results tier edited today).1 = false ↔
        Green registry results tier edited today)) ∧
    ∀ (tierFlag todayFlag : Text) (clock : Date) (registry : RegistryFile)
      (edited stream : List Text) (readErr : Option Text),
      ((run decode tierFlag todayFlag clock registry edited stream readErr).1 = .green →
        CleanStream decode stream readErr ∧ (collect decode stream).results ≠ []) ∧
      ((run decode tierFlag todayFlag clock registry edited stream readErr).1 = .excused →
        parseTier tierFlag = some .fast ∧ (∀ raw ∈ stream, isWellFormed decode raw = true) ∧
          readErr = none ∧ ∃ r ∈ (collect decode stream).results, r.status = .fail) := by
  constructor
  · intro registry tier edited today results hids
    exact evaluate_green_iff hids
  · intro tierFlag todayFlag clock registry edited stream readErr
    constructor
    · intro h
      obtain ⟨tier, today, text, -, hj⟩ := run_eq_judgeStream h (.inl rfl)
      exact cleanStream_of_green hj
    · intro h
      obtain ⟨tier, today, text, htier, hj⟩ := run_eq_judgeStream h (.inr rfl)
      obtain ⟨-, herrs, hread, -⟩ := judgeStream_not_red (by rw [hj]; decide)
      obtain ⟨hfast, hfail⟩ := fast_of_excused (judgeStream_excused hj)
      exact ⟨hfast ▸ htier, wellFormed_of_errs herrs, hread, hfail⟩

/-- A failing subtest with its recorded signature, and its parent. -/
def flakySubtest : List Result :=
  [{ test := "k3sm.io/x::TestFoo/slow".toList, status := .fail,
     output := "dial tcp: timed out\n".toList, failedRuns := ["dial tcp: timed out\n".toList] },
   { test := "k3sm.io/x::TestFoo".toList, status := .fail,
     output := "=== RUN   TestFoo\n--- FAIL: TestFoo (0.01s)\n".toList, failedRuns := [[]] }]

def flakyRegistry : Text :=
  ("k3sm.io/x::TestFoo/slow sig=\"dial tcp: timed out\" owner=a filed=2026-01-01 " ++
    "deadline=2026-02-01 fix=b reason=c").toList

theorem quarantine_verdict_flakySubtest :
    (flakySubtest.map Result.test).Nodup ∧
      Green flakyRegistry flakySubtest .fast [] ⟨2026, 1, 2⟩ :=
  ⟨by decide +kernel,
    ((quarantine_verdict (fun _ => none)).1 flakyRegistry .fast [] ⟨2026, 1, 2⟩ flakySubtest
      (by decide +kernel)).mp (by decide +kernel)⟩

end K3smApis.Quarantine
