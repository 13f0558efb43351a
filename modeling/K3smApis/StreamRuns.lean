import K3smApis.TestStream

/-!
# Runs of a test

The collector keeps one open flag and one output buffer per test id. A run event of an
id whose earlier run has not reported is not noticed, and neither is output in front of
a run event. In streams where neither happens every run of a test must report, and a
failed run is judged on its own output.
-/
namespace K3smApis.Quarantine

open Text Civil

/-- An event that reports a result. -/
def Event.isResult (ev : Event) : Bool :=
  ev.action = .pass || ev.action = .skip || ev.action = .fail

/-- The run and output events of a test since its last result. -/
def unreported (history : List Event) : List Event :=
  history.foldl (fun seg ev =>
    if ev.isResult then []
    else if ev.action = .run ∨ ev.action = .output then seg ++ [ev]
    else seg) []

/-- The output of some events of a test. -/
def outputOf (evs : List Event) : Text :=
  (evs.filter (fun ev => ev.action = .output)).flatMap Event.output

theorem unreported_concat (h : List Event) (ev : Event) : unreported (h ++ [ev]) =
    if ev.isResult then []
    else if ev.action = .run ∨ ev.action = .output then unreported h ++ [ev]
    else unreported h := by
  simp [unreported]

/-- The events in front of each fail event, in order. -/
def beforeFails (h : List Event) : List (List Event) :=
  (h.zipIdx.filter (fun p => p.1.action = .fail)).map (fun p => h.take p.2)

theorem beforeFails_concat (h : List Event) (ev : Event) : beforeFails (h ++ [ev]) =
    if ev.action = .fail then beforeFails h ++ [h] else beforeFails h := by
  have hold : (h.zipIdx.filter (fun p => p.1.action = .fail)).map (fun p => (h ++ [ev]).take p.2) =
      beforeFails h := by
    refine List.map_congr_left fun p hp => ?_
    have hlt := List.snd_lt_of_mem_zipIdx (List.mem_of_mem_filter hp)
    exact List.take_append_of_le_length (by omega)
  rw [beforeFails, List.zipIdx_append, List.filter_append, List.map_append, hold]
  split_ifs with hfail
  · simp [hfail]
  · simp [hfail]

theorem exists_of_mem_beforeFails {h pre : List Event} (hpre : pre ∈ beforeFails h) :
    ∃ ev post, h = pre ++ ev :: post ∧ ev.action = .fail := by
  induction h using List.reverseRecOn with
  | nil => simp [beforeFails] at hpre
  | append_singleton h ev ih =>
    have hlast : pre ∈ beforeFails h ∨ ev.action = .fail ∧ pre = h := by
      rw [beforeFails_concat] at hpre
      split_ifs at hpre with hfail
      · exact (List.mem_append.mp hpre).imp_right fun hp => ⟨hfail, List.mem_singleton.mp hp⟩
      · exact .inl hpre
    rcases hlast with hold | ⟨hfail, rfl⟩
    · obtain ⟨e, post, rfl, hfail⟩ := ih hold
      exact ⟨e, post ++ [ev], by simp, hfail⟩
    · exact ⟨ev, [], rfl, hfail⟩

/-- What the collector keeps of a test, in terms of the test's own events. -/
structure Tracks (h : List Event) (r : Result) : Prop where
  isOpen : r.isOpen = true ↔ unreported h ≠ []
  run : r.run = outputOf (unreported h)
  failedRuns : r.failedRuns = (beforeFails h).map (fun pre => outputOf (unreported pre))

theorem Tracks.record {h : List Event} {r : Result} (ht : Tracks h r) (ev : Event) :
    Tracks (h ++ [ev]) (Result.record ev r) := by
  unfold Result.record
  cases hact : ev.action with
  | fail =>
    refine ⟨?_, ?_, ?_⟩
    · simp [unreported_concat, Event.isResult, hact]
    · simp [unreported_concat, Event.isResult, hact, outputOf]
    · simp [beforeFails_concat, hact, ht.failedRuns, ht.run]
  | run | output =>
    refine ⟨?_, ?_, by simp [beforeFails_concat, hact, ht.failedRuns]⟩ <;>
      simp [unreported_concat, Event.isResult, hact, ht.run, outputOf]
  | pass | skip =>
    refine ⟨?_, ?_, by simp [beforeFails_concat, hact, ht.failedRuns]⟩ <;>
      simp [unreported_concat, Event.isResult, hact, outputOf]
  | _ =>
    refine ⟨?_, ?_, by simp [beforeFails_concat, hact, ht.failedRuns]⟩ <;>
      simp [unreported_concat, Event.isResult, hact, ht.isOpen, ht.run]

theorem resultOf_tracks (id : Text) (h : List Event) : Tracks h (resultOf id h) := by
  induction h using List.reverseRecOn with
  | nil => constructor <;> simp [resultOf, unreported, outputOf, beforeFails]
  | append_singleton h ev ih =>
    rw [resultOf_concat]
    exact ih.record ev

theorem testsOf_nodup (evs : List Event) : ((testsOf evs).map Result.test).Nodup := by
  induction evs using List.reverseRecOn with
  | nil => exact List.nodup_nil
  | append_singleton evs ev ih =>
    rw [testsOf_concat]
    split_ifs
    · have hnew : ({ test := ev.id } : Result).test = ev.id := rfl
      rw [updateTest_eq_upsert]
      exact KeyedList.nodup_upsert hnew (record_test ev) ih
    · exact ih

/-- Every result of a test is what the test's own events give. -/
theorem eq_resultOf_of_mem {evs : List Event} {r : Result} (hr : r ∈ testsOf evs) :
    r = resultOf r.test (historyOf r.test evs) := by
  have hfind := (KeyedList.mem_iff_find? (testsOf_nodup evs)).mp hr
  rw [find?_testsOf] at hfind
  split_ifs at hfind
  exact (Option.some.inj hfind).symm

/-- The events of a test in which a run event finds no run of it unreported, and a fail
event finds nothing in front of its run event. -/
structure RunsApart (h : List Event) : Prop where
  runs : ∀ pre ev post, h = pre ++ ev :: post → ev.action = .run →
    ∀ e ∈ unreported pre, e.action ≠ .run
  fails : ∀ pre ev post, h = pre ++ ev :: post → ev.action = .fail →
    ∀ e ∈ (unreported pre).head?, e.action = .run

/-- A run event with no result behind it stays unreported. -/
theorem mem_unreported {pre post : List Event} {ev : Event} (hrun : ev.action = .run)
    (hpost : ∀ e ∈ post, e.isResult = false) : ev ∈ unreported (pre ++ ev :: post) := by
  induction post using List.reverseRecOn with
  | nil => simp [unreported_concat, Event.isResult, hrun]
  | append_singleton post e ih =>
    have hprev := ih (fun e he => hpost e (List.mem_append_left _ he))
    have he : e.isResult = false := hpost e (by simp)
    rw [← List.cons_append, ← List.append_assoc, unreported_concat, if_neg (by simp [he])]
    split_ifs
    · exact List.mem_append_left _ hprev
    · exact hprev

/-- The unreported events are the run and output events behind the last result. -/
theorem unreported_split (h : List Event) : ∃ before between, h = before ++ between ∧
    (∀ e ∈ between, e.isResult = false) ∧
    unreported h = between.filter (fun e => e.action = .run || e.action = .output) := by
  induction h using List.reverseRecOn with
  | nil => exact ⟨[], [], rfl, by simp, rfl⟩
  | append_singleton h ev ih =>
    obtain ⟨before, between, rfl, hres, hun⟩ := ih
    by_cases hev : ev.isResult = true
    · refine ⟨before ++ between ++ [ev], [], by simp, by simp, ?_⟩
      rw [unreported_concat, if_pos hev]
      rfl
    · refine ⟨before, between ++ [ev], by simp, ?_, ?_⟩
      · intro e he
        rcases List.mem_append.mp he with he | he
        · exact hres e he
        · rw [List.mem_singleton.mp he]
          simpa using hev
      · rw [unreported_concat, if_neg hev, hun, List.filter_append]
        split_ifs with hkind
        · simp [hkind]
        · simp [hkind]

theorem outputOf_cons_run {start : Event} (h : start.action = .run) (l : List Event) :
    outputOf (start :: l) = outputOf l := by
  simp [outputOf, h]

theorem outputOf_filter (l : List Event) :
    outputOf (l.filter (fun e => e.action = .run || e.action = .output)) = outputOf l := by
  simp only [outputOf, List.filter_filter]
  congr 1
  apply List.filter_congr
  intro e _
  by_cases he : e.action = .output
  · simp [he]
  · simp [he]

/-- The output of the run of a test that ends behind `pre`: what came behind its own run
event, with neither a run event nor a result of the test since. A result with no run event
of its own has no output. -/
inductive RunOutput (pre : List Event) : Text → Prop where
  | own {before between : List Event} {start : Event} (hpre : pre = before ++ start :: between)
      (hrun : start.action = .run)
      (hbetween : ∀ e ∈ between, e.action ≠ .run ∧ e.isResult = false) :
      RunOutput pre (outputOf between)
  | none (hnone : ∀ before start between, pre = before ++ start :: between →
      start.action = .run → ∃ e ∈ between, e.isResult = true) : RunOutput pre []

/-- A fail event finds the output of its own run. -/
theorem RunsApart.failed_run {h pre post : List Event} {ev : Event} (hap : RunsApart h)
    (hh : h = pre ++ ev :: post) (hfail : ev.action = .fail) :
    RunOutput pre (outputOf (unreported pre)) := by
  obtain ⟨before, between, hpre, hres, hun⟩ := unreported_split pre
  cases hseg : unreported pre with
  | nil =>
    refine .none fun before start between hsplit hrun => ?_
    by_contra hnone
    have hmem : start ∈ unreported pre := by
      rw [hsplit]
      refine mem_unreported hrun fun e he => ?_
      rw [Bool.eq_false_iff]
      exact fun hresult => hnone ⟨e, he, hresult⟩
    rw [hseg] at hmem
    exact absurd hmem List.not_mem_nil
  | cons start rest =>
    have hstart : start.action = .run := hap.fails pre ev post hh hfail start (by simp [hseg])
    rw [hseg] at hun
    obtain ⟨l, r, rfl, -, -, hr⟩ := List.filter_eq_cons_iff.mp hun.symm
    have hresr : ∀ e ∈ r, e.isResult = false := fun e he => hres e (by simp [he])
    have hout : outputOf (start :: rest) = outputOf r := by
      rw [← hr, outputOf_cons_run hstart, outputOf_filter]
    rw [hout]
    have hown : pre = (before ++ l) ++ start :: r := by simp [hpre]
    refine .own hown hstart fun e he => ⟨?_, hresr e he⟩
    -- a run event between would have found `start` unreported
    intro hrun
    obtain ⟨x, y, rfl⟩ := List.append_of_mem he
    refine hap.runs (before ++ l ++ start :: x) e (y ++ ev :: post) (by simp [hh, hpre]) hrun
      start (mem_unreported hstart ?_) hstart
    intro e' he'
    exact hresr e' (by simp [he'])

/-- A run event that nothing reports before the next one is the last of its test. -/
theorem RunsApart.last_run {h pre post : List Event} {ev : Event} (hap : RunsApart h)
    (hh : h = pre ++ ev :: post) (hrun : ev.action = .run)
    (hnone : ∀ e ∈ post.takeWhile (fun e => e.action ≠ .run), e.isResult = false) :
    unreported h ≠ [] := by
  have hsplit : post.takeWhile (fun e => e.action ≠ .run) ++
      post.dropWhile (fun e => e.action ≠ .run) = post := List.takeWhile_append_dropWhile
  cases hdrop : post.dropWhile (fun e => e.action ≠ .run) with
  | nil =>
    rw [hdrop, List.append_nil] at hsplit
    rw [hsplit] at hnone
    exact List.ne_nil_of_mem (hh ▸ mem_unreported hrun hnone)
  | cons next rest =>
    have hnext : next.action = .run := by
      have hne : post.dropWhile (fun e => e.action ≠ .run) ≠ [] := by
        rw [hdrop]
        exact List.cons_ne_nil _ _
      have hhead := List.head_dropWhile_not (fun e : Event => e.action ≠ .run) hne
      simp only [hdrop, List.head_cons] at hhead
      simpa using hhead
    rw [hdrop] at hsplit
    refine absurd hrun (hap.runs (pre ++ ev :: post.takeWhile (fun e => e.action ≠ .run)) next rest
      ?_ hnext ev (mem_unreported hrun hnone))
    rw [hh, List.append_assoc, List.cons_append, hsplit]

theorem run_of_unreported {decode : Text → Option Event} {stream : List Text} {id : Text}
    (hopen : unreported (historyOf id (events decode stream)) ≠ []) {tierFlag todayFlag : Text}
    {clock : Date} (htier : (parseTier tierFlag).isSome)
    (htoday : (parseToday todayFlag clock).isSome)
    (registry : RegistryFile) (edited : List Text) (readErr : Option Text) :
    (run decode tierFlag todayFlag clock registry edited stream readErr).1 = .red := by
  have hne : historyOf id (events decode stream) ≠ [] := by
    intro hnil
    rw [hnil] at hopen
    exact hopen rfl
  have hmem := reported_mem_results hne
  rw [Collector.reported, if_pos ((resultOf_tracks id _).isOpen.mpr hopen)] at hmem
  obtain ⟨tier, htier⟩ := Option.isSome_iff_exists.mp htier
  obtain ⟨today, htoday⟩ := Option.isSome_iff_exists.mp htoday
  simp only [run, htier, htoday]
  cases registry with
  | contents text => exact judgeStream_of_red (evaluate_of_noResult hmem rfl)
  | missing => exact judgeStream_of_red (evaluate_of_noResult hmem rfl)
  | unreadable path err => rfl

/-- Every run of a test must report. In a stream that keeps the runs of every test
apart: a run event that no result of the test follows before its next run event makes
the exit status red, and the texts a test's failed runs are judged on are, one for each of
its fail events and in their order, the output of the run that the event ends. -/
theorem every_run_reports (decode : Text → Option Event) (stream : List Text)
    (hap : ∀ id, RunsApart (historyOf id (events decode stream))) :
    (∀ (tierFlag todayFlag : Text) (clock : Date) (registry : RegistryFile) (edited : List Text)
      (readErr : Option Text) (id : Text) (pre : List Event) (ev : Event) (post : List Event),
      (parseTier tierFlag).isSome → (parseToday todayFlag clock).isSome →
      historyOf id (events decode stream) = pre ++ ev :: post → ev.action = .run →
      (∀ e ∈ post.takeWhile (fun e => e.action ≠ .run), e.isResult = false) →
      (run decode tierFlag todayFlag clock registry edited stream readErr).1 = .red) ∧
    ∀ r ∈ (collect decode stream).tests, List.Forall₂ RunOutput
      (beforeFails (historyOf r.test (events decode stream))) r.failedRuns := by
  constructor
  · intro tierFlag todayFlag clock registry edited readErr id pre ev post htier htoday hh hrun hnone
    exact run_of_unreported ((hap id).last_run hh hrun hnone) htier htoday registry edited readErr
  · intro r hr
    rw [(collect_gathered stream).1.tests] at hr
    have hruns := (resultOf_tracks r.test (historyOf r.test (events decode stream))).failedRuns
    rw [← eq_resultOf_of_mem hr] at hruns
    rw [hruns, List.forall₂_map_right_iff, List.forall₂_same]
    intro pre hpre
    obtain ⟨ev, post, hh, hfail⟩ := exists_of_mem_beforeFails hpre
    exact (hap r.test).failed_run hh hfail

def runEventLine : Text :=
  "\x7b\"Action\":\"run\",\"Package\":\"k3sm.io/x\",\"Test\":\"TestA\"\x7d".toList

def outputEventLine : Text :=
  "\x7b\"Action\":\"output\",\"Package\":\"k3sm.io/x\",\"Test\":\"TestA\",".toList ++
    "\"Output\":\"boom\"\x7d".toList

def failEventLine : Text :=
  "\x7b\"Action\":\"fail\",\"Package\":\"k3sm.io/x\",\"Test\":\"TestA\"\x7d".toList

def passEventLine : Text :=
  "\x7b\"Action\":\"pass\",\"Package\":\"k3sm.io/x\",\"Test\":\"TestA\"\x7d".toList

/-- An event of the test `TestA`. -/
def testAEvent (action : Action) (output : Text) : Event :=
  { action, package := "k3sm.io/x".toList, test := "TestA".toList, output }

/-- The decoding of the four lines. -/
def decodeTestA (raw : Text) : Option Event :=
  if raw = runEventLine then some (testAEvent .run [])
  else if raw = outputEventLine then some (testAEvent .output "boom".toList)
  else if raw = failEventLine then some (testAEvent .fail [])
  else if raw = passEventLine then some (testAEvent .pass [])
  else none

/-- The first run of the test never reports, the second passes, and the exit status is
green. -/
theorem lost_run_green :
    (historyOf "k3sm.io/x::TestA".toList
      (events decodeTestA [runEventLine, runEventLine, passEventLine])).map Event.action =
        [.run, .run, .pass] ∧
    (run decodeTestA "fast".toList [] ⟨2026, 1, 2⟩ .missing []
      [runEventLine, runEventLine, passEventLine] none).1 = .green := by
  decide +kernel

/-- The condition on the runs, tested event by event. -/
theorem runsApart_of_all {h : List Event}
    (hall : h.zipIdx.all (fun p =>
      (p.1.action ≠ .run || (unreported (h.take p.2)).all (·.action ≠ .run)) &&
      (p.1.action ≠ .fail || (unreported (h.take p.2)).head?.all (·.action = .run))) = true) :
    RunsApart h := by
  have hat : ∀ pre ev post, h = pre ++ ev :: post →
      (ev.action ≠ .run ∨ ∀ e ∈ unreported pre, e.action ≠ .run) ∧
      (ev.action ≠ .fail ∨ ∀ e ∈ (unreported pre).head?, e.action = .run) := by
    intro pre ev post hh
    have hmem : (ev, pre.length) ∈ h.zipIdx := by
      rw [List.mem_zipIdx_iff_getElem?, hh]
      simp
    have htake : h.take pre.length = pre := by simp [hh]
    simpa [htake, Option.all_eq_true] using List.all_eq_true.mp hall _ hmem
  exact ⟨fun pre ev post hh hrun => (hat pre ev post hh).1.resolve_left (not_not.mpr hrun),
    fun pre ev post hh hfail => (hat pre ev post hh).2.resolve_left (not_not.mpr hfail)⟩

/-- Three runs of the test: two fail, the second without output, and the last hangs. -/
def hangingStream : List Text :=
  [runEventLine, outputEventLine, failEventLine, runEventLine, failEventLine, runEventLine,
    outputEventLine]

/-- The hanging run reds the exit status, and the two failed runs have the output of each. -/
theorem every_run_reports_hanging :
    (run decodeTestA "fast".toList [] ⟨2026, 1, 2⟩ .missing [] hangingStream none).1 = .red ∧
    ∃ r ∈ (collect decodeTestA hangingStream).tests, r.failedRuns = ["boom".toList, []] ∧
      List.Forall₂ RunOutput
        (beforeFails (historyOf r.test (events decodeTestA hangingStream))) r.failedRuns := by
  have hevents : events decodeTestA hangingStream =
      [testAEvent .run [], testAEvent .output "boom".toList, testAEvent .fail [],
        testAEvent .run [], testAEvent .fail [], testAEvent .run [],
        testAEvent .output "boom".toList] := by decide +kernel
  have hap : ∀ id, RunsApart (historyOf id (events decodeTestA hangingStream)) := by
    intro id
    by_cases hid : id = "k3sm.io/x::TestA".toList
    · subst hid
      exact runsApart_of_all (by rw [hevents]; decide +kernel)
    · have hnone : historyOf id (events decodeTestA hangingStream) = [] := by
        have hids : ∀ ev ∈ events decodeTestA hangingStream, ev.id = "k3sm.io/x::TestA".toList := by
          rw [hevents]
          decide +kernel
        refine List.filter_eq_nil_iff.mpr fun ev hev => ?_
        rw [Event.isOf, hids ev hev, decide_eq_false (Ne.symm hid), Bool.and_false]
        exact Bool.false_ne_true
      rw [hnone]
      exact runsApart_of_all rfl
  obtain ⟨hhangs, hruns⟩ := every_run_reports decodeTestA hangingStream hap
  have hlast : historyOf "k3sm.io/x::TestA".toList (events decodeTestA hangingStream) =
      [testAEvent .run [], testAEvent .output "boom".toList, testAEvent .fail [],
        testAEvent .run [], testAEvent .fail []] ++
        testAEvent .run [] :: [testAEvent .output "boom".toList] := by
    rw [hevents]
    decide +kernel
  refine ⟨hhangs "fast".toList [] ⟨2026, 1, 2⟩ .missing [] none _ _ _ _ (by decide) (by decide)
    hlast rfl (by decide +kernel), ?_⟩
  have hmem : resultOf "k3sm.io/x::TestA".toList
      (historyOf "k3sm.io/x::TestA".toList (events decodeTestA hangingStream)) ∈
        (collect decodeTestA hangingStream).tests := by
    rw [hevents]
    decide +kernel
  refine ⟨_, hmem, ?_, hruns _ hmem⟩
  rw [hevents]
  decide +kernel

end K3smApis.Quarantine
