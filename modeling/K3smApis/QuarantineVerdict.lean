import K3smApis.QuarantineRegistry

/-!
# The quarantine verdict

`evaluate` of hack/lib/testresults.go: which failures the registry excuses, and whether
the run is red. An unlisted failure is decided after every result was read, because
only then is it known which of its subtests failed.
-/
namespace K3smApis.Quarantine

open Text Civil

/-- A test's status; `noResult` is the empty status of the source. -/
inductive Status where
  | pass
  | skip
  | fail
  | noResult
  deriving DecidableEq, Repr

inductive Tier where
  | fast
  | full
  deriving DecidableEq, Repr

structure Result where
  test : Text
  status : Status := .noResult
  /-- Every run's output. -/
  output : Text := []
  /-- The output of each run that failed. -/
  failedRuns : List Text := []
  /-- The output of the run in progress. -/
  run : Text := []
  /-- A run has started and has not reported a result. -/
  isOpen : Bool := false
  deriving DecidableEq, Repr

/-- `carriedByEveryRun`. -/
def carriedByEveryRun (runs : List Text) (sig : Text) : Bool :=
  runs.all (·.contains sig) && runs.length > 0

/-- The starts of the lines the harness writes for a test. -/
def framingMarks : List Text :=
  ["=== RUN", "=== PAUSE", "=== CONT", "=== NAME", "--- PASS:", "--- FAIL:",
    "--- SKIP:"].map String.toList

/-- `framingRE`: the test a harness line names. -/
def framedTest (line : Text) : Option Text := do
  let rest ← framingMarks.findSome? (fun m => after? m (line.dropWhile isBlank))
  let name := (rest.dropWhile isBlank).takeWhile (!isBlank ·)
  if (rest.head?.map isBlank).getD false && name ≠ [] then some name else none

/-- Whether a line is harness framing for a test or one of its subtests. -/
def isFraming (name line : Text) : Bool :=
  match framedTest line with
  | some m => m = name || m.hasPrefix (name ++ ['/'])
  | none => false

/-- `ownFailure`: the first line of a parent's own output that is neither blank, nor a
line of a subtest's output, nor framing for the parent or a subtest. -/
def ownFailure (name output : Text) (kidOutputs : List Text) : Option Text :=
  output.lines.find? (fun l =>
    !(l.trimSpace = [] || l ∈ kidOutputs.flatMap Text.lines || isFraming name l))

/-- The name `strings.Cut(test, "::")` leaves, empty without a separator. -/
def cutName : Text → Text
  | [] => []
  | c :: t => if "::".toList <+: c :: t then t.drop 1 else cutName t

/-- Whether `c` is the id of a subtest, at any depth, of the test `u`. -/
def isBelow (u c : Text) : Bool := c.hasPrefix (u ++ ['/'])

/-- A line of the report: written, or an unlisted failure still to be decided. -/
inductive Slot where
  | line (m : Msg)
  | pending (test : Text)
  deriving DecidableEq, Repr

/-- What `evaluate` knows after some results. -/
structure Tally where
  red : Bool := false
  excused : ℕ := 0
  out : List Slot := []
  quarantined : List Text := []
  unlistedIDs : List Text := []
  failing : List Text := []
  outputs : List (Text × Text) := []

/-- The entry of a test in `byID`. -/
def byID (entries : List Entry) (test : Text) : Option Entry :=
  entries.reverse.find? (fun e => e.test = test)

/-- The report line of a failure that carries a race or sanitizer report. -/
def raceLine (test rm : Text) : Msg :=
  [.s "RED ", .str test.bytes, .s ": failed with a race or sanitizer report (", .q rm.bytes,
    .s "); quarantine never applies"]

/-- A failing listed test: the line that reds the run, or the line that excuses it. -/
def judgeListed (tier : Tier) (edited : List Text) (e : Entry) (r : Result) : Except Msg Msg :=
  match raceMarker r.output with
  | some rm => .error (raceLine r.test rm)
  | none =>
    if tier = .full then
      .error [.s "RED ", .str r.test.bytes,
        .s ": quarantined test failed; the full tier reds on it (fix ", .str e.fix.bytes,
        .s ", deadline ", .str e.deadline.bytes, .s ")"]
    else if e.pkg ∈ edited then
      .error [.s "RED ", .str r.test.bytes, .s ": quarantined, but the change edits ",
        .str e.pkg.bytes, .s " directly"]
    else if ¬carriedByEveryRun r.failedRuns e.sig then
      .error [.s "RED ", .str r.test.bytes,
        .s ": quarantined, but the failure does not match the recorded signature"]
    else
      .ok [.s "QUARANTINED ", .str r.test.bytes,
        .s ": failed with its recorded signature; reported, not red (owner ", .str e.owner.bytes,
        .s ", fix ", .str e.fix.bytes, .s ", deadline ", .str e.deadline.bytes, .s ")"]

/-- The report line of a listed test that did not fail. -/
def passedLine (test : Text) (status : String) : Slot :=
  .line [.s "ok  ", .str test.bytes, .s ": quarantined test ", .s status, .s "ed"]

/-- One result. -/
def Tally.add (entries : List Entry) (tier : Tier) (edited : List Text) (t : Tally) (r : Result) :
    Tally :=
  match r.status with
  | .pass => if (byID entries r.test).isSome then
      { t with out := t.out ++ [passedLine r.test "pass"] } else t
  | .skip => if (byID entries r.test).isSome then
      { t with out := t.out ++ [passedLine r.test "skip"] } else t
  | .noResult =>
    { t with red := true, out := t.out ++ [.line [.s "RED ", .str r.test.bytes, .s ": no result"]] }
  | .fail =>
    let t := { t with failing := t.failing ++ [r.test], outputs := (r.test, r.output) :: t.outputs }
    match byID entries r.test with
    | none =>
      { t with unlistedIDs := t.unlistedIDs ++ [r.test], out := t.out ++ [.pending r.test] }
    | some e =>
      match judgeListed tier edited e r with
      | .error m => { t with red := true, out := t.out ++ [.line m] }
      | .ok m =>
        { t with quarantined := t.quarantined ++ [r.test], excused := t.excused + 1,
                 out := t.out ++ [.line m] }

/-- `outputs[test]`. -/
def Tally.outputOf (t : Tally) (test : Text) : Text := (t.outputs.lookup test).getD []

/-- The failing subtests of a test. -/
def Tally.kids (t : Tally) (u : Text) : List Text := t.failing.filter (isBelow u)

/-- Whether every failing subtest is quarantined, or is an unlisted parent of another
failing subtest, and there is one. -/
def Tally.covered (t : Tally) (u : Text) : Bool :=
  (t.kids u).length > 0 && (t.kids u).all (fun c =>
    c ∈ t.quarantined || (c ∈ t.unlistedIDs && (t.kids u).any (isBelow c)))

/-- An unlisted failure: the line that reds the run, or the line that excuses it. -/
def Tally.judgeUnlisted (t : Tally) (u : Text) : Except Msg Msg :=
  match raceMarker (t.outputOf u) with
  | some rm => .error (raceLine u rm)
  | none =>
    if t.covered u then
      match ownFailure (cutName u) (t.outputOf u) ((t.kids u).map t.outputOf) with
      | some own => .error [.s "RED ", .str u.bytes, .s ": failed; its own output carries ",
          .q own.trimSpace.bytes, .s " beside its quarantined subtests"]
      | none => .ok [.s "QUARANTINED ", .str u.bytes,
          .s ": failed only through quarantined subtests (",
          .str (Text.bytes (", ".toList.intercalate ((t.kids u).filter (· ∈ t.quarantined)))),
          .s "); reported, not red"]
    else .error [.s "RED ", .str u.bytes, .s ": failed"]

/-- A slot of the report, decided. -/
def Tally.settle (t : Tally) : Slot → Except Msg Msg
  | .line m => .ok m
  | .pending u => t.judgeUnlisted u

/-- The text of a decided slot. -/
def decided : Except Msg Msg → Msg
  | .error m => m
  | .ok m => m

/-- The entries past their deadline. -/
def expired (entries : List Entry) (today : Date) : List Entry :=
  entries.filter (fun e => e.deadlineDate.before today)

/-- The results in turn, from an empty tally. -/
def tally (entries : List Entry) (tier : Tier) (edited : List Text) (results : List Result) :
    Tally :=
  results.foldl (Tally.add entries tier edited) {}

/-- `evaluate`: whether the run is red, how many failures the registry excused, and the
report lines. -/
def evaluate (registry : Text) (results : List Result) (tier : Tier) (edited : List Text)
    (today : Date) : Bool × ℕ × List Msg :=
  let (entries, errs) := parseRegistry registry
  let late := expired entries today
  let t := tally entries tier edited results
  let settled := t.out.map t.settle
  (decide (errs ≠ []) || decide (late ≠ []) || t.red || settled.any (fun x => !x.isOk),
    t.excused,
    errs.map ([.s "RED registry: "] ++ ·) ++
    late.map (fun e => [.s "RED ", .str e.test.bytes, .s ": quarantine expired ",
      .str e.deadline.bytes, .s " (owner ", .str e.owner.bytes, .s ", fix ", .str e.fix.bytes,
      .s ")"]) ++
    settled.map decided)

section Tally

variable {entries : List Entry} {tier : Tier} {edited : List Text}

/-- The entry of a failing test excuses the failure. -/
structure Excuses (tier : Tier) (edited : List Text) (e : Entry) (r : Result) : Prop where
  quiet : raceMarker r.output = none
  fast : tier = .fast
  unedited : e.pkg ∉ edited
  failed : r.failedRuns ≠ []
  carried : ∀ run ∈ r.failedRuns, e.sig <:+: run

theorem carriedByEveryRun_iff {runs : List Text} {sig : Text} :
    carriedByEveryRun runs sig = true ↔ runs ≠ [] ∧ ∀ run ∈ runs, sig <:+: run := by
  simp [carriedByEveryRun, List.length_pos_iff, and_comm]

theorem judgeListed_isOk {e : Entry} {r : Result} :
    (judgeListed tier edited e r).isOk = true ↔ Excuses tier edited e r := by
  unfold judgeListed
  cases hrace : raceMarker r.output with
  | some rm =>
    refine iff_of_false Bool.false_ne_true (fun h => ?_)
    rw [h.quiet] at hrace
    exact absurd hrace (by simp)
  | none =>
    dsimp only
    split_ifs with hfull hedit hsig
    · refine iff_of_false Bool.false_ne_true (fun h => ?_)
      rw [h.fast] at hfull
      exact absurd hfull (by decide)
    · exact iff_of_false Bool.false_ne_true (fun h => h.unedited hedit)
    · obtain ⟨hne, hcarried⟩ := carriedByEveryRun_iff.mp hsig
      refine iff_of_true rfl ⟨hrace, ?_, hedit, hne, hcarried⟩
      cases tier with
      | fast => rfl
      | full => exact absurd rfl hfull
    · exact iff_of_false Bool.false_ne_true
        (fun h => hsig (carriedByEveryRun_iff.mpr ⟨h.failed, h.carried⟩))

/-- A failing result that the entry of its test excuses. -/
def IsExcused (entries : List Entry) (tier : Tier) (edited : List Text) (r : Result) : Prop :=
  r.status = .fail ∧ ∃ e, byID entries r.test = some e ∧ Excuses tier edited e r

/-- A failing result that no entry lists. -/
def IsUnlisted (entries : List Entry) (r : Result) : Prop :=
  r.status = .fail ∧ byID entries r.test = none

/-- A result that reds the run by itself. -/
def IsRed (entries : List Entry) (tier : Tier) (edited : List Text) (r : Result) : Prop :=
  r.status = .noResult ∨
    r.status = .fail ∧ ∃ e, byID entries r.test = some e ∧ ¬Excuses tier edited e r

/-- The tally of some results, in terms of the results. -/
structure Counts (entries : List Entry) (tier : Tier) (edited : List Text) (rs : List Result)
    (t : Tally) : Prop where
  red : t.red = true ↔ ∃ r ∈ rs, IsRed entries tier edited r
  excused : t.excused = t.quarantined.length
  quarantined : ∀ x, x ∈ t.quarantined ↔ ∃ r ∈ rs, IsExcused entries tier edited r ∧ x = r.test
  unlisted : ∀ x, x ∈ t.unlistedIDs ↔ ∃ r ∈ rs, IsUnlisted entries r ∧ x = r.test
  pending : ∀ x, Slot.pending x ∈ t.out ↔ ∃ r ∈ rs, IsUnlisted entries r ∧ x = r.test
  failing : ∀ x, x ∈ t.failing ↔ ∃ r ∈ rs, r.status = .fail ∧ x = r.test
  outputs : (rs.map Result.test).Nodup → ∀ r ∈ rs, r.status = .fail → t.outputOf r.test = r.output

theorem exists_mem_concat {α : Type} {l : List α} {a : α} {p : α → Prop} :
    (∃ x ∈ l ++ [a], p x) ↔ (∃ x ∈ l, p x) ∨ p a := by
  simp [or_and_right, exists_or]

/-- What one more result may change. -/
theorem Counts.extend {rs : List Result} {t t' : Tally} {r : Result}
    (h : Counts entries tier edited rs t)
    (hred : t'.red = true ↔ t.red = true ∨ IsRed entries tier edited r)
    (hexcused : t'.excused = t'.quarantined.length)
    (hquar : ∀ x, x ∈ t'.quarantined ↔
      x ∈ t.quarantined ∨ IsExcused entries tier edited r ∧ x = r.test)
    (hunl : ∀ x, x ∈ t'.unlistedIDs ↔ x ∈ t.unlistedIDs ∨ IsUnlisted entries r ∧ x = r.test)
    (hpend : ∀ x, Slot.pending x ∈ t'.out ↔
      Slot.pending x ∈ t.out ∨ IsUnlisted entries r ∧ x = r.test)
    (hfail : ∀ x, x ∈ t'.failing ↔ x ∈ t.failing ∨ r.status = .fail ∧ x = r.test)
    (hout : t'.outputs = if r.status = .fail then (r.test, r.output) :: t.outputs else t.outputs) :
    Counts entries tier edited (rs ++ [r]) t' where
  red := by rw [hred, h.red, exists_mem_concat]
  excused := hexcused
  quarantined x := by rw [hquar, h.quarantined, exists_mem_concat]
  unlisted x := by rw [hunl, h.unlisted, exists_mem_concat]
  pending x := by rw [hpend, h.pending, exists_mem_concat]
  failing x := by rw [hfail, h.failing, exists_mem_concat]
  outputs := by
    intro hnodup r' hr' hst
    rw [List.map_append, List.nodup_append] at hnodup
    rcases List.mem_append.mp hr' with hold | hnew
    · have hne : r'.test ≠ r.test :=
        hnodup.2.2 r'.test (List.mem_map_of_mem hold) r.test (by simp)
      have hsame : t'.outputOf r'.test = t.outputOf r'.test := by
        rw [Tally.outputOf, hout]
        split_ifs
        · rw [List.lookup_cons, beq_eq_false_iff_ne.mpr hne, Tally.outputOf]
        · rfl
      rw [hsame, h.outputs hnodup.1 r' hold hst]
    · rw [List.mem_singleton.mp hnew] at hst ⊢
      rw [Tally.outputOf, hout, if_pos hst]
      simp

theorem Counts.add {rs : List Result} {t : Tally} (h : Counts entries tier edited rs t)
    (r : Result) : Counts entries tier edited (rs ++ [r]) (t.add entries tier edited r) := by
  -- a status other than fail touches no list of failures
  have hother {t' : Tally} (hst : r.status ≠ .fail)
      (hred : t'.red = true ↔ t.red = true ∨ r.status = .noResult)
      (hrest : t' = { t with red := t'.red, out := t'.out })
      (hpend : ∀ x, Slot.pending x ∈ t'.out ↔ Slot.pending x ∈ t.out) :
      Counts entries tier edited (rs ++ [r]) t' := by
    rw [hrest]
    apply h.extend <;> simp [IsRed, IsExcused, IsUnlisted, hst, hred, hpend, h.excused]
  unfold Tally.add
  cases hst : r.status with
  | pass =>
    dsimp only
    split_ifs
    · exact hother (by simp [hst]) (by simp [hst]) rfl (by simp [passedLine])
    · exact hother (by simp [hst]) (by simp [hst]) rfl (by simp)
  | skip =>
    dsimp only
    split_ifs
    · exact hother (by simp [hst]) (by simp [hst]) rfl (by simp [passedLine])
    · exact hother (by simp [hst]) (by simp [hst]) rfl (by simp)
  | noResult => exact hother (by simp [hst]) (by simp [hst]) rfl (by simp)
  | fail =>
    dsimp only
    cases hid : byID entries r.test with
    | none =>
      apply h.extend <;> simp [IsRed, IsExcused, IsUnlisted, hst, hid, h.excused]
    | some e =>
      dsimp only
      cases hj : judgeListed tier edited e r with
      | error m =>
        have hno : ¬Excuses tier edited e r := by
          rw [← judgeListed_isOk, hj]
          exact Bool.false_ne_true
        apply h.extend <;> simp [IsRed, IsExcused, IsUnlisted, hst, hid, hno, h.excused]
      | ok m =>
        have hyes : Excuses tier edited e r := by
          rw [← judgeListed_isOk, hj]
          rfl
        apply h.extend <;> simp [IsRed, IsExcused, IsUnlisted, hst, hid, hyes, h.excused]

theorem tally_counts (rs : List Result) :
    Counts entries tier edited rs (tally entries tier edited rs) := by
  induction rs using List.reverseRecOn with
  | nil => constructor <;> simp [tally]
  | append_singleton rs r ih =>
    rw [tally, List.foldl_append]
    exact ih.add r

end Tally

theorem isBelow_iff {u c : Text} : isBelow u c = true ↔ u ++ ['/'] <+: c := by
  simp [isBelow]

theorem isBelow_trans {u c g : Text} (huc : isBelow u c = true) (hcg : isBelow c g = true) :
    isBelow u g = true := by
  rw [isBelow_iff] at *
  exact huc.trans ((List.prefix_append c ['/']).trans hcg)

theorem isBelow_length_lt {u c : Text} (h : isBelow u c = true) : u.length < c.length := by
  have hlen := (isBelow_iff.mp h).length_le
  rw [List.length_append, List.length_singleton] at hlen
  omega

namespace Tally

variable {t : Tally} {u : Text}

theorem mem_kids {c : Text} : c ∈ t.kids u ↔ c ∈ t.failing ∧ isBelow u c = true :=
  List.mem_filter

theorem covered_iff : t.covered u = true ↔ t.kids u ≠ [] ∧ ∀ c ∈ t.kids u,
    c ∈ t.quarantined ∨ c ∈ t.unlistedIDs ∧ ∃ g ∈ t.kids u, isBelow c g = true := by
  simp [covered, List.length_pos_iff]

theorem judgeUnlisted_isOk : (t.judgeUnlisted u).isOk = true ↔
    raceMarker (t.outputOf u) = none ∧ t.covered u = true ∧
      ownFailure (cutName u) (t.outputOf u) ((t.kids u).map t.outputOf) = none := by
  unfold judgeUnlisted
  cases hrace : raceMarker (t.outputOf u) with
  | some rm => exact iff_of_false Bool.false_ne_true (by simp)
  | none =>
    dsimp only
    split_ifs with hcov
    · cases hown : ownFailure (cutName u) (t.outputOf u) ((t.kids u).map t.outputOf) with
      | some own => exact iff_of_false Bool.false_ne_true (by simp)
      | none => exact iff_of_true rfl ⟨rfl, hcov, rfl⟩
    · exact iff_of_false Bool.false_ne_true (fun h => hcov h.2.1)

end Tally

theorem ownFailure_eq_none {name output : Text} {kidOutputs : List Text} :
    ownFailure name output kidOutputs = none ↔ ∀ l ∈ output.lines, l.trimSpace ≠ [] →
      isFraming name l = true ∨ ∃ o ∈ kidOutputs, l ∈ o.lines := by
  rw [ownFailure, List.find?_eq_none]
  refine forall₂_congr (fun l _ => ?_)
  rw [← List.mem_flatMap]
  by_cases hblank : l.trimSpace = []
  · simp [hblank]
  · by_cases hkid : l ∈ kidOutputs.flatMap Text.lines
    · simp only [hkid, decide_true, Bool.or_true, Bool.true_or, Bool.not_true, Bool.false_eq_true,
        not_false_eq_true, or_true, implies_true]
    · simp only [hblank, hkid, decide_false, Bool.false_or, Bool.not_eq_true', not_false_eq_true,
        Bool.not_eq_false, or_false, ne_eq, forall_const]

/-- A test the registry lists. -/
def Listed (entries : List Entry) (test : Text) : Prop := ∃ e ∈ entries, e.test = test

/-- A failing result has a failing result below it. -/
def HasFailingBelow (results : List Result) (r : Result) : Prop :=
  ∃ r' ∈ results, r'.status = .fail ∧ isBelow r.test r'.test = true

/-- The failure is listed and excused: no race or sanitizer marker, at least one failed
run, the recorded signature in every one, an unedited package, and the fast tier. -/
def ExcusedByRegistry (entries : List Entry) (tier : Tier) (edited : List Text) (r : Result) :
    Prop :=
  ∃ e ∈ entries, e.test = r.test ∧ raceMarker r.output = none ∧ r.failedRuns ≠ [] ∧
    (∀ run ∈ r.failedRuns, e.sig <:+: run) ∧
    (∃ pkg name, splitTestID r.test = some (pkg, name) ∧ pkg ∉ edited) ∧ tier = .fast

/-- The parent failed only through its subtests: no race marker, and each line of its
output that is not blank is framing for it or a subtest, or a line of a failing
descendant's output. -/
def OnlySubtestsFailed (results : List Result) (r : Result) : Prop :=
  raceMarker r.output = none ∧ ∀ l ∈ r.output.lines, l.trimSpace ≠ [] →
    isFraming (cutName r.test) l = true ∨
      ∃ r' ∈ results, r'.status = .fail ∧ isBelow r.test r'.test = true ∧ l ∈ r'.output.lines

/-- What a run has to satisfy not to be red. -/
structure Green (registry : Text) (results : List Result) (tier : Tier) (edited : List Text)
    (today : Date) : Prop where
  valid : (parseRegistry registry).2 = []
  current : ∀ e ∈ (parseRegistry registry).1, e.deadlineDate.before today = false
  reported : ∀ r ∈ results, r.status ≠ .noResult
  leaves : ∀ r ∈ results, r.status = .fail →
    Listed (parseRegistry registry).1 r.test ∨ ¬HasFailingBelow results r →
    ExcusedByRegistry (parseRegistry registry).1 tier edited r
  parents : ∀ r ∈ results, r.status = .fail → ¬Listed (parseRegistry registry).1 r.test →
    HasFailingBelow results r → OnlySubtestsFailed results r

section Registry

variable {registry : Text} {tier : Tier} {edited : List Text}

theorem byID_eq_none {entries : List Entry} {test : Text} :
    byID entries test = none ↔ ¬Listed entries test := by
  simp [byID, Listed]

/-- The entry of a test is the one that lists it: no test is listed twice. -/
theorem byID_eq_some {test : Text} {e : Entry} :
    byID (parseRegistry registry).1 test = some e ↔
      e ∈ (parseRegistry registry).1 ∧ e.test = test := by
  constructor
  · intro h
    refine ⟨List.mem_reverse.mp (List.mem_of_find?_eq_some h), ?_⟩
    simpa using List.find?_some h
  · rintro ⟨he, rfl⟩
    have hlisted : byID (parseRegistry registry).1 e.test ≠ none := by
      rw [ne_eq, byID_eq_none, not_not]
      exact ⟨e, he, rfl⟩
    obtain ⟨e', he'⟩ := Option.ne_none_iff_exists'.mp hlisted
    have hmem : e' ∈ (parseRegistry registry).1 :=
      List.mem_reverse.mp (List.mem_of_find?_eq_some he')
    have htest : e'.test = e.test := by simpa using List.find?_some he'
    have hinj := List.inj_on_of_nodup_map (parseRegistry_distinct registry)
    rw [he', hinj hmem he htest]

/-- Being excused, read off the registry. -/
theorem isExcused_iff {r : Result} (hfail : r.status = .fail) :
    IsExcused (parseRegistry registry).1 tier edited r ↔
      ExcusedByRegistry (parseRegistry registry).1 tier edited r := by
  simp only [IsExcused, hfail, true_and, byID_eq_some, ExcusedByRegistry]
  refine exists_congr (fun e => ?_)
  constructor
  · rintro ⟨⟨he, htest⟩, hex⟩
    obtain ⟨name, hacc⟩ := parseRegistry_accepted he
    refine ⟨he, htest, hex.quiet, hex.failed, hex.carried, ⟨e.pkg, name, ?_, hex.unedited⟩,
      hex.fast⟩
    rw [← htest, hacc.id]
  · rintro ⟨he, htest, hquiet, hfailed, hcarried, ⟨pkg, name, hid, hedit⟩, hfast⟩
    obtain ⟨name', hacc⟩ := parseRegistry_accepted he
    have hpkg : e.pkg = pkg := by
      rw [← htest, hacc.id] at hid
      exact congrArg Prod.fst (Option.some.inj hid)
    exact ⟨⟨he, htest⟩, hquiet, hfast, hpkg ▸ hedit, hfailed, hcarried⟩

/-- A failing result does not red the run by itself when its entry, if it has one,
excuses it. -/
theorem not_isRed_iff {r : Result} (hfail : r.status = .fail) :
    ¬IsRed (parseRegistry registry).1 tier edited r ↔
      (Listed (parseRegistry registry).1 r.test →
        IsExcused (parseRegistry registry).1 tier edited r) := by
  constructor
  · rintro hred ⟨e, he, htest⟩
    have hid := byID_eq_some.mpr ⟨he, htest⟩
    refine ⟨hfail, e, hid, ?_⟩
    by_contra hno
    exact hred (.inr ⟨hfail, e, hid, hno⟩)
  · rintro h (hno | ⟨-, e, hid, hno⟩)
    · exact absurd (hfail.symm.trans hno) (by decide)
    · obtain ⟨-, e', hid', hex⟩ := h ⟨e, byID_eq_some.mp hid⟩
      rw [hid] at hid'
      exact hno (Option.some.inj hid' ▸ hex)

/-- A run is not red when the registry is valid and current, no result reds it by
itself, and every unlisted failure is settled. -/
theorem evaluate_fst {results : List Result} {today : Date} :
    (evaluate registry results tier edited today).1 = false ↔
      (parseRegistry registry).2 = [] ∧
      (∀ e ∈ (parseRegistry registry).1, e.deadlineDate.before today = false) ∧
      (∀ r ∈ results, ¬IsRed (parseRegistry registry).1 tier edited r) ∧
      ∀ r ∈ results, IsUnlisted (parseRegistry registry).1 r →
        ((tally (parseRegistry registry).1 tier edited results).judgeUnlisted r.test).isOk =
          true := by
  have hcounts : Counts (parseRegistry registry).1 tier edited results _ := tally_counts results
  have hslots (t : Tally) : (t.out.map t.settle).any (fun x => !x.isOk) = false ↔
      ∀ u, Slot.pending u ∈ t.out → (t.judgeUnlisted u).isOk = true := by
    simp only [List.any_map, List.any_eq_false, Function.comp_apply, Bool.not_eq_true',
      Bool.not_eq_false]
    constructor
    · intro h u hu
      exact h _ hu
    · intro h slot hslot
      cases slot with
      | line m => rfl
      | pending u => exact h u hslot
  have hlate : expired (parseRegistry registry).1 today = [] ↔
      ∀ e ∈ (parseRegistry registry).1, e.deadlineDate.before today = false := by
    simp [expired]
  have hred : (tally (parseRegistry registry).1 tier edited results).red = false ↔
      ∀ r ∈ results, ¬IsRed (parseRegistry registry).1 tier edited r := by
    rw [← Bool.not_eq_true, hcounts.red]
    simp
  have hpending : (∀ u,
      Slot.pending u ∈ (tally (parseRegistry registry).1 tier edited results).out →
        ((tally (parseRegistry registry).1 tier edited results).judgeUnlisted u).isOk = true) ↔
      ∀ r ∈ results, IsUnlisted (parseRegistry registry).1 r →
        ((tally (parseRegistry registry).1 tier edited results).judgeUnlisted r.test).isOk =
          true := by
    constructor
    · intro h r hr hun
      exact h _ ((hcounts.pending _).mpr ⟨r, hr, hun, rfl⟩)
    · intro h u hu
      obtain ⟨r, hr, hun, rfl⟩ := (hcounts.pending u).mp hu
      exact h r hr hun
  simp only [evaluate, Bool.or_eq_false_iff, decide_eq_false_iff_not, not_not, hlate, hred, hslots,
    hpending, and_assoc, ne_eq]

/-- An unlisted failure of a green run has a failing result below it. -/
theorem Green.hasFailingBelow {results : List Result} {today : Date}
    (h : Green registry results tier edited today) {r : Result} (hr : r ∈ results)
    (hfail : r.status = .fail) (hno : ¬Listed (parseRegistry registry).1 r.test) :
    HasFailingBelow results r := by
  by_contra hbelow
  obtain ⟨e, he, htest, -⟩ := h.leaves r hr hfail (.inr hbelow)
  exact hno ⟨e, he, htest⟩

/-- Not being red gives everything a green run has. -/
theorem green_of_not_red {results : List Result} {today : Date}
    (hids : (results.map Result.test).Nodup)
    (h : (evaluate registry results tier edited today).1 = false) :
    Green registry results tier edited today := by
  obtain ⟨hvalid, hcurrent, hred, hjudge⟩ := evaluate_fst.mp h
  have hcounts : Counts (parseRegistry registry).1 tier edited results _ := tally_counts results
  have hunlisted {r : Result} (hr : r ∈ results) (hfail : r.status = .fail)
      (hno : ¬Listed (parseRegistry registry).1 r.test) :=
    Tally.judgeUnlisted_isOk.mp (hjudge r hr ⟨hfail, byID_eq_none.mpr hno⟩)
  refine ⟨hvalid, hcurrent, ?_, ?_, ?_⟩
  · intro r hr hno
    exact hred r hr (.inl hno)
  · intro r hr hfail hleaf
    rw [← isExcused_iff hfail]
    apply (not_isRed_iff hfail).mp (hred r hr)
    by_contra hno
    obtain ⟨-, hcov, -⟩ := hunlisted hr hfail hno
    obtain ⟨c, hc⟩ := List.exists_mem_of_ne_nil _ (Tally.covered_iff.mp hcov).1
    obtain ⟨hcfail, hbelow⟩ := Tally.mem_kids.mp hc
    obtain ⟨r', hr', hfail', rfl⟩ := (hcounts.failing c).mp hcfail
    exact (hleaf.resolve_left hno) ⟨r', hr', hfail', hbelow⟩
  · intro r hr hfail hno _
    obtain ⟨hquiet, -, hown⟩ := hunlisted hr hfail hno
    rw [hcounts.outputs hids r hr hfail] at hquiet hown
    refine ⟨hquiet, fun l hl hblank => ?_⟩
    rcases ownFailure_eq_none.mp hown l hl hblank with hframe | ⟨o, ho, hlo⟩
    · exact .inl hframe
    · obtain ⟨c, hc, rfl⟩ := List.mem_map.mp ho
      obtain ⟨hcfail, hbelow⟩ := Tally.mem_kids.mp hc
      obtain ⟨r', hr', hfail', rfl⟩ := (hcounts.failing c).mp hcfail
      rw [hcounts.outputs hids r' hr' hfail'] at hlo
      exact .inr ⟨r', hr', hfail', hbelow, hlo⟩

/-- A green run is not red. The source decides a parent through its descendants; each
of those is excused or, unlisted itself, has a failing result below it. -/
theorem Green.not_red {results : List Result} {today : Date}
    (hids : (results.map Result.test).Nodup) (h : Green registry results tier edited today) :
    (evaluate registry results tier edited today).1 = false := by
  have hcounts : Counts (parseRegistry registry).1 tier edited results _ := tally_counts results
  refine evaluate_fst.mpr ⟨h.valid, h.current, ?_, ?_⟩
  · intro r hr
    by_cases hfail : r.status = .fail
    · rw [not_isRed_iff hfail, isExcused_iff hfail]
      exact fun hlisted => h.leaves r hr hfail (.inl hlisted)
    · rintro (hno | ⟨hyes, -⟩)
      · exact h.reported r hr hno
      · exact hfail hyes
  · rintro r hr ⟨hfail, hno⟩
    rw [byID_eq_none] at hno
    have hbelow := h.hasFailingBelow hr hfail hno
    obtain ⟨hquiet, hlines⟩ := h.parents r hr hfail hno hbelow
    rw [Tally.judgeUnlisted_isOk, hcounts.outputs hids r hr hfail, Tally.covered_iff,
      ownFailure_eq_none]
    have hkid {r' : Result} (hr' : r' ∈ results) (hfail' : r'.status = .fail)
        (hb : isBelow r.test r'.test = true) :
        r'.test ∈ (tally (parseRegistry registry).1 tier edited results).kids r.test :=
      Tally.mem_kids.mpr ⟨(hcounts.failing _).mpr ⟨r', hr', hfail', rfl⟩, hb⟩
    refine ⟨hquiet, ⟨?_, ?_⟩, ?_⟩
    · obtain ⟨r', hr', hfail', hb⟩ := hbelow
      exact List.ne_nil_of_mem (hkid hr' hfail' hb)
    · intro c hc
      obtain ⟨hcfail, hb⟩ := Tally.mem_kids.mp hc
      obtain ⟨r', hr', hfail', rfl⟩ := (hcounts.failing c).mp hcfail
      by_cases hl : Listed (parseRegistry registry).1 r'.test
      · have hex := (isExcused_iff hfail').mpr (h.leaves r' hr' hfail' (.inl hl))
        exact .inl ((hcounts.quarantined _).mpr ⟨r', hr', hex, rfl⟩)
      · obtain ⟨g, hg, hgfail, hgb⟩ := h.hasFailingBelow hr' hfail' hl
        refine .inr ⟨(hcounts.unlisted _).mpr ⟨r', hr', ⟨hfail', byID_eq_none.mpr hl⟩, rfl⟩, ?_⟩
        exact ⟨g.test, hkid hg hgfail (isBelow_trans hb hgb), hgb⟩
    · intro l hl hblank
      rcases hlines l hl hblank with hframe | ⟨r', hr', hfail', hb, hlo⟩
      · exact .inl hframe
      · refine .inr ⟨r'.output, List.mem_map.mpr ⟨r'.test, hkid hr' hfail' hb, ?_⟩, hlo⟩
        exact hcounts.outputs hids r' hr' hfail'

/-- `evaluate` over results of distinct ids is not red exactly when the run is green. -/
theorem evaluate_green_iff {results : List Result} {today : Date}
    (hids : (results.map Result.test).Nodup) :
    (evaluate registry results tier edited today).1 = false ↔
      Green registry results tier edited today :=
  ⟨green_of_not_red hids, Green.not_red hids⟩

/-- A failing result of a run that is not red and excuses nothing has a failing result
below it. -/
theorem exists_longer_failure {results : List Result} {today : Date}
    (hred : (evaluate registry results tier edited today).1 = false)
    (hnone : (evaluate registry results tier edited today).2.1 = 0) {r : Result}
    (hr : r ∈ results) (hfail : r.status = .fail) :
    ∃ r' ∈ results, r'.status = .fail ∧ r.test.length < r'.test.length := by
  obtain ⟨-, -, hnot, hjudge⟩ := evaluate_fst.mp hred
  have hcounts : Counts (parseRegistry registry).1 tier edited results _ := tally_counts results
  have hempty : (tally (parseRegistry registry).1 tier edited results).quarantined = [] := by
    rw [← List.length_eq_zero_iff, ← hcounts.excused]
    exact hnone
  have hno : ¬Listed (parseRegistry registry).1 r.test := by
    intro hl
    have hex := (not_isRed_iff hfail).mp (hnot r hr) hl
    have hq := (hcounts.quarantined r.test).mpr ⟨r, hr, hex, rfl⟩
    rw [hempty] at hq
    exact absurd hq List.not_mem_nil
  obtain ⟨-, hcov, -⟩ := Tally.judgeUnlisted_isOk.mp (hjudge r hr ⟨hfail, byID_eq_none.mpr hno⟩)
  obtain ⟨c, hc⟩ := List.exists_mem_of_ne_nil _ (Tally.covered_iff.mp hcov).1
  obtain ⟨hcfail, hb⟩ := Tally.mem_kids.mp hc
  obtain ⟨r', hr', hfail', rfl⟩ := (hcounts.failing c).mp hcfail
  exact ⟨r', hr', hfail', isBelow_length_lt hb⟩

/-- A run that is not red and excuses nothing has no failing result, whatever the ids. -/
theorem no_failure_of_unexcused {results : List Result} {today : Date}
    (hred : (evaluate registry results tier edited today).1 = false)
    (hnone : (evaluate registry results tier edited today).2.1 = 0) :
    ∀ r ∈ results, r.status ≠ .fail := by
  intro r hr hfail
  -- otherwise there are failing results with ids of any length
  have hlong (n : ℕ) : ∃ r' ∈ results, r'.status = .fail ∧ n ≤ r'.test.length := by
    induction n with
    | zero => exact ⟨r, hr, hfail, Nat.zero_le _⟩
    | succ n ih =>
      obtain ⟨r', hr', hfail', hn⟩ := ih
      obtain ⟨r'', hr'', hfail'', hlt⟩ := exists_longer_failure hred hnone hr' hfail'
      exact ⟨r'', hr'', hfail'', by omega⟩
  obtain ⟨r', hr', -, hn⟩ := hlong ((results.map (fun r => r.test.length)).sum + 1)
  have hle : r'.test.length ≤ (results.map (fun r => r.test.length)).sum :=
    List.le_sum_of_mem (List.mem_map_of_mem hr')
  omega

end Registry

end K3smApis.Quarantine
