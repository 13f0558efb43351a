import K3smApis.StreamRuns

/-!
# The order of a stream

Packages and parallel tests write their events in any order. The collector keeps tests,
packages and builds in the order of their first events, and `evaluate` goes through them in
that order; the exit status still depends only on the events of each test, of each package
outside its tests, and of the builds. It is 3 exactly when the verdict is not red and a
result failed.
-/
namespace K3smApis.Quarantine

open Text Civil KeyedList

/-- The events of a package outside its tests. -/
def outsideOf (pkg : Text) (evs : List Event) : List Event :=
  evs.filter (fun ev => ev.isNamed && ev.test = [] && ev.package = pkg)

theorem outsideOf_concat (pkg : Text) (evs : List Event) (ev : Event) :
    outsideOf pkg (evs ++ [ev]) =
      if ev.isNamed = true ∧ ev.test = [] ∧ ev.package = pkg then outsideOf pkg evs ++ [ev]
      else outsideOf pkg evs := by
  rw [outsideOf, List.filter_append, ← outsideOf]
  by_cases h : ev.isNamed = true ∧ ev.test = [] ∧ ev.package = pkg
  · simp [h]
  · rw [if_neg h, List.filter_cons_of_neg (by simpa [and_assoc] using h), List.filter_nil,
      List.append_nil]

theorem mem_failedPackages_iff {evs : List Event} {pkg : Text} :
    pkg ∈ failedPackages evs ↔ ∃ ev ∈ outsideOf pkg evs, ev.action = .fail := by
  rw [mem_failedPackages]
  refine exists_congr fun ev => ?_
  simp only [outsideOf, List.mem_filter, Event.isPackageFail, Bool.and_eq_true, decide_eq_true_eq]
  tauto

theorem failedPackages_nodup (evs : List Event) : (failedPackages evs).Nodup := by
  induction evs using List.reverseRecOn with
  | nil => exact List.nodup_nil
  | append_singleton evs ev ih =>
    rw [failedPackages_concat]
    split_ifs with hev
    · rw [← List.concat_eq_append]
      exact ih.concat hev.2
    · exact ih

theorem addText_eq_upsert (pkg out : Text) (ps : List (Text × Text)) :
    addText pkg out ps = upsert Prod.fst pkg (pkg, []) (fun p => (p.1, p.2 ++ out)) ps := by
  induction ps with
  | nil => rfl
  | cons p ps ih => rw [addText, upsert, ih]

theorem packageText_nodup (evs : List Event) : ((packageText evs).map Prod.fst).Nodup := by
  induction evs using List.reverseRecOn with
  | nil => exact List.nodup_nil
  | append_singleton evs ev ih =>
    rw [packageText_concat]
    split_ifs
    · have hnew : ((ev.package, []) : Text × Text).1 = ev.package := rfl
      rw [addText_eq_upsert]
      exact nodup_upsert hnew (by intro p; rfl) ih
    · exact ih

/-- The text of a package is the output of its own events. -/
theorem find?_packageText (pkg : Text) (evs : List Event) :
    (packageText evs).find? (fun p => p.1 = pkg) =
      if (outsideOf pkg evs).filter (fun ev => ev.action = .output) = [] then none
      else some (pkg, outputOf (outsideOf pkg evs)) := by
  induction evs using List.reverseRecOn with
  | nil => rfl
  | append_singleton evs ev ih =>
    rw [packageText_concat, outsideOf_concat]
    by_cases hev : ev.isPackageOutput = true
    · obtain ⟨⟨hn, htest⟩, hact⟩ : (ev.isNamed = true ∧ ev.test = []) ∧ ev.action = .output := by
        simpa [Event.isPackageOutput] using hev
      have hnew : ((ev.package, []) : Text × Text).1 = ev.package := rfl
      rw [if_pos hev, addText_eq_upsert, find?_upsert hnew (by intro p; rfl)]
      by_cases hpkg : pkg = ev.package
      · subst hpkg
        have hout : ev.isNamed = true ∧ ev.test = [] ∧ ev.package = ev.package := ⟨hn, htest, rfl⟩
        rw [if_pos rfl, ih, if_pos hout]
        by_cases hnil : (outsideOf ev.package evs).filter (fun ev => ev.action = .output) = []
        · simp [hnil, outputOf, hact]
        · simp [hnil, outputOf, hact]
      · have hout : ¬(ev.isNamed = true ∧ ev.test = [] ∧ ev.package = pkg) :=
          fun h => hpkg h.2.2.symm
        rw [if_neg hpkg, ih, if_neg hout]
    · rw [if_neg hev, ih]
      by_cases hout : ev.isNamed = true ∧ ev.test = [] ∧ ev.package = pkg
      · have hact : ev.action ≠ .output := by simpa [Event.isPackageOutput, hout] using hev
        rw [if_pos hout]
        simp [outputOf, hact]
      · rw [if_neg hout]

/-- The same events of every test, of every package outside its tests, and of the builds. -/
structure SameEvents (evs₁ evs₂ : List Event) : Prop where
  tests : ∀ id, historyOf id evs₁ = historyOf id evs₂
  packages : ∀ pkg, outsideOf pkg evs₁ = outsideOf pkg evs₂
  builds : (evs₁.filter Event.isBuildEvent).Perm (evs₂.filter Event.isBuildEvent)

theorem SameEvents.symm {evs₁ evs₂ : List Event} (h : SameEvents evs₁ evs₂) :
    SameEvents evs₂ evs₁ :=
  ⟨fun id => (h.tests id).symm, fun pkg => (h.packages pkg).symm, h.builds.symm⟩

theorem SameEvents.mem_of_isTest {evs₁ evs₂ : List Event} (h : SameEvents evs₁ evs₂) {ev : Event}
    (htest : ev.isTest = true) (hev : ev ∈ evs₁) : ev ∈ evs₂ := by
  have hmem : ev ∈ historyOf ev.id evs₁ := List.mem_filter.mpr ⟨hev, by simp [Event.isOf, htest]⟩
  rw [h.tests] at hmem
  exact (List.mem_filter.mp hmem).1

/-- The failure of a package or a build is known by its id. -/
theorem outsideFailure_inj {p q : Text} {suffix output : String} {d e : Text}
    (h : (Collector.outsideFailure p suffix output d).test =
      (Collector.outsideFailure q suffix output e).test) : p = q := by
  simpa [Collector.outsideFailure] using h

section Results

variable {evs₁ evs₂ : List Event} {c₁ c₂ : Collector}

theorem tests_sameByKey (h : SameEvents evs₁ evs₂) : SameByKey Result.test
    ((testsOf evs₁).map Collector.reported) ((testsOf evs₂).map Collector.reported) := by
  have hkey : ∀ evs, ((testsOf evs).map Collector.reported).map Result.test =
      (testsOf evs).map Result.test := by
    intro evs
    rw [List.map_map]
    refine List.map_congr_left fun r _ => ?_
    simp only [Function.comp_apply, Collector.reported]
    split_ifs <;> rfl
  refine sameByKey_of_perm (List.Perm.map _ ?_) fun a ha b hb hab => ?_
  · refine perm_of_nodup (testsOf_nodup evs₁) (testsOf_nodup evs₂) fun id => ?_
    rw [find?_testsOf, find?_testsOf, h.tests]
  · refine List.inj_on_of_nodup_map ?_ ha hb hab
    rw [hkey]
    exact testsOf_nodup evs₁

theorem packageText_perm (h : SameEvents evs₁ evs₂) :
    (packageText evs₁).Perm (packageText evs₂) := by
  refine perm_of_nodup (packageText_nodup evs₁) (packageText_nodup evs₂) fun pkg => ?_
  rw [find?_packageText, find?_packageText, h.packages]

/-- The results of two collectors agree test by test. -/
theorem results_sameByKey (h : SameEvents evs₁ evs₂) (h₁ : Gathered evs₁ c₁)
    (h₂ : Gathered evs₂ c₂) : SameByKey Result.test c₁.results c₂.results := by
  have htext : c₁.pkgText.Perm c₂.pkgText := by
    rw [h₁.text, h₂.text]
    exact packageText_perm h
  have hraced : ∀ p, p ∈ c₁.raced ↔ p ∈ c₂.raced := fun p => ((htext.filter _).map _).mem_iff
  have hhas : ∀ p, p ∈ c₁.pkgHasFail ↔ p ∈ c₂.pkgHasFail := by
    intro p
    simp only [h₁.hasFail, h₂.hasFail, List.mem_map, List.mem_filter]
    refine exists_congr fun ev => and_congr_left fun _ => and_congr_left fun hfail => ?_
    have htest : ev.isTest = true := by
      simp only [Event.isTestFail, Bool.and_eq_true] at hfail
      exact hfail.1
    exact ⟨h.mem_of_isTest htest, h.symm.mem_of_isTest htest⟩
  have horder : c₁.pkgOrder.Perm c₂.pkgOrder := by
    rw [h₁.order, h₂.order]
    refine (List.perm_ext_iff_of_nodup (failedPackages_nodup _) (failedPackages_nodup _)).mpr ?_
    intro p
    rw [mem_failedPackages_iff, mem_failedPackages_iff, h.packages]
  have hbuild : c₁.buildFail.Perm c₂.buildFail := by
    have hfail : ∀ evs : List Event, evs.filter Event.isBuildFail =
        (evs.filter Event.isBuildEvent).filter (fun ev => ev.action = .buildFail) := by
      intro evs
      rw [List.filter_filter]
      exact List.filter_congr fun ev _ => Bool.and_comm _ _
    rw [h₁.build, h₂.build, hfail, hfail]
    exact (h.builds.filter _).map _
  unfold Collector.results
  refine SameByKey.append (SameByKey.append (SameByKey.append ?_ ?_) ?_) ?_
  · rw [h₁.tests, h₂.tests]
    exact tests_sameByKey h
  · have hkeys : (c₁.pkgText.map Prod.fst).Nodup := by
      rw [h₁.text]
      exact packageText_nodup evs₁
    refine sameByKey_of_perm (htext.filterMap _) fun a ha b hb hab => ?_
    obtain ⟨p, hp, hpa⟩ := List.mem_filterMap.mp ha
    obtain ⟨q, hq, hqb⟩ := List.mem_filterMap.mp hb
    obtain ⟨rm, -, rfl⟩ := Option.map_eq_some_iff.mp hpa
    obtain ⟨rm', -, rfl⟩ := Option.map_eq_some_iff.mp hqb
    obtain rfl := List.inj_on_of_nodup_map hkeys hp hq (outsideFailure_inj hab)
    exact Option.some.inj (hpa.symm.trans hqb)
  · have hkept : (fun p => decide (p ∉ c₁.pkgHasFail) && decide (p ∉ c₁.raced)) =
        fun p => decide (p ∉ c₂.pkgHasFail) && decide (p ∉ c₂.raced) := by
      funext p
      simp only [hhas, hraced]
    refine sameByKey_of_perm (List.Perm.map _ ?_) fun a ha b hb hab => ?_
    · rw [hkept]
      exact horder.filter _
    · obtain ⟨p, -, rfl⟩ := List.mem_map.mp ha
      obtain ⟨q, -, rfl⟩ := List.mem_map.mp hb
      rw [outsideFailure_inj hab]
  · refine sameByKey_of_perm (hbuild.map _) fun a ha b hb hab => ?_
    obtain ⟨p, -, rfl⟩ := List.mem_map.mp ha
    obtain ⟨q, -, rfl⟩ := List.mem_map.mp hb
    rw [outsideFailure_inj hab]

end Results

section Verdict

variable {entries : List Entry} {tier : Tier} {edited₁ edited₂ : List Text}
  {results₁ results₂ : List Result}

theorem outputs_add (t : Tally) (edited : List Text) (r : Result) :
    (t.add entries tier edited r).outputs =
      if r.status = .fail then (r.test, r.output) :: t.outputs else t.outputs := by
  unfold Tally.add
  cases r.status with
  | fail =>
    rw [if_pos rfl]
    dsimp only
    repeat' split
    all_goals rfl
  | noResult => rfl
  | pass =>
    dsimp only
    split <;> rfl
  | skip =>
    dsimp only
    split <;> rfl

/-- The output of a test is that of its last failing result. -/
theorem outputOf_tally (edited : List Text) (results : List Result) (test : Text) :
    (tally entries tier edited results).outputOf test =
      (((ofKey Result.test test results).filter (fun r => r.status = .fail)).getLast?.map
        Result.output).getD [] := by
  induction results using List.reverseRecOn with
  | nil => rfl
  | append_singleton results r ih =>
    rw [tally, List.foldl_append, ← tally, List.foldl_cons, List.foldl_nil, Tally.outputOf,
      outputs_add, ofKey_concat]
    rw [Tally.outputOf] at ih
    by_cases htest : r.test = test
    · rw [if_pos htest, List.filter_append, List.filter_singleton]
      by_cases hfail : r.status = .fail
      · simp [htest, hfail]
      · rw [if_neg hfail, ih]
        simp [hfail]
    · rw [if_neg htest, ← ih]
      split_ifs
      · rw [List.lookup_cons, beq_eq_false_iff_ne.mpr (Ne.symm htest)]
      · rfl

/-- What the judgement of an unlisted failure depends on. -/
structure Tally.Agree (t₁ t₂ : Tally) : Prop where
  quarantined : ∀ x, x ∈ t₁.quarantined ↔ x ∈ t₂.quarantined
  unlisted : ∀ x, x ∈ t₁.unlistedIDs ↔ x ∈ t₂.unlistedIDs
  failing : ∀ x, x ∈ t₁.failing ↔ x ∈ t₂.failing
  outputs : ∀ x, t₁.outputOf x = t₂.outputOf x

theorem Tally.Agree.judgeUnlisted {t₁ t₂ : Tally} (h : t₁.Agree t₂) (u : Text) :
    (t₁.judgeUnlisted u).isOk = true ↔ (t₂.judgeUnlisted u).isOk = true := by
  have hkids : ∀ c, c ∈ t₁.kids u ↔ c ∈ t₂.kids u := by
    intro c
    rw [Tally.mem_kids, Tally.mem_kids, h.failing]
  have hne : t₁.kids u ≠ [] ↔ t₂.kids u ≠ [] := by
    simp only [ne_eq, List.eq_nil_iff_forall_not_mem, hkids]
  rw [Tally.judgeUnlisted_isOk, Tally.judgeUnlisted_isOk, Tally.covered_iff, Tally.covered_iff,
    ownFailure_eq_none, ownFailure_eq_none]
  simp only [h.outputs, h.quarantined, h.unlisted, hkids, hne, List.mem_map]

theorem excuses_congr (hedited : ∀ p, p ∈ edited₁ ↔ p ∈ edited₂) {e : Entry} {r : Result} :
    Excuses tier edited₁ e r ↔ Excuses tier edited₂ e r := by
  constructor
  · intro h
    exact ⟨h.quiet, h.fast, (hedited _).not.mp h.unedited, h.failed, h.carried⟩
  · intro h
    exact ⟨h.quiet, h.fast, (hedited _).not.mpr h.unedited, h.failed, h.carried⟩

variable (hsame : SameByKey Result.test results₁ results₂)
  (hedited : ∀ p, p ∈ edited₁ ↔ p ∈ edited₂)

include hsame hedited

theorem tally_agree : (tally entries tier edited₁ results₁).Agree
    (tally entries tier edited₂ results₂) := by
  have h₁ : Counts entries tier edited₁ results₁ _ := tally_counts results₁
  have h₂ : Counts entries tier edited₂ results₂ _ := tally_counts results₂
  refine ⟨fun x => ?_, fun x => ?_, fun x => ?_, fun x => ?_⟩
  · rw [h₁.quarantined, h₂.quarantined]
    simp only [IsExcused, hsame.mem_iff, excuses_congr hedited]
  · rw [h₁.unlisted, h₂.unlisted]
    simp only [hsame.mem_iff]
  · rw [h₁.failing, h₂.failing]
    simp only [hsame.mem_iff]
  · rw [outputOf_tally, outputOf_tally, hsame x]

theorem evaluate_congr (registry : Text) (tier : Tier) (today : Date) :
    (evaluate registry results₁ tier edited₁ today).1 =
      (evaluate registry results₂ tier edited₂ today).1 := by
  have hiff : (evaluate registry results₁ tier edited₁ today).1 = false ↔
      (evaluate registry results₂ tier edited₂ today).1 = false := by
    rw [evaluate_fst, evaluate_fst]
    simp only [IsRed, hsame.mem_iff, excuses_congr hedited,
      (tally_agree hsame hedited).judgeUnlisted]
  rw [← Bool.not_eq_true, ← Bool.not_eq_true, not_iff_not] at hiff
  exact Bool.eq_iff_iff.mpr hiff

theorem excused_congr (registry : Text) (tier : Tier) (today : Date) :
    0 < (evaluate registry results₁ tier edited₁ today).2.1 ↔
      0 < (evaluate registry results₂ tier edited₂ today).2.1 := by
  rw [excused_pos_iff, excused_pos_iff]
  simp only [IsExcused, hsame.mem_iff, excuses_congr hedited]

end Verdict

section Exit

variable {decode : Text → Option Event} {registry : Text} {tier : Tier} {edited : List Text}
  {today : Date} {stream : List Text} {readErr : Option Text}

/-- The errors of the stream, and the one that ended it. -/
def streamErrs (decode : Text → Option Event) (stream : List Text) (readErr : Option Text) :
    List Msg :=
  (collect decode stream).errs ++ (readErr.map (fun e =>
    ([.s "reading the stream: ", .str e.bytes] : Msg))).toList

/-- `red` at the end of `run`: the verdict of `evaluate`, an error of the stream, or a stream
without results. -/
def verdictRed (decode : Text → Option Event) (registry : Text) (tier : Tier)
    (edited : List Text) (today : Date) (stream : List Text) (readErr : Option Text) : Bool :=
  (evaluate registry (collect decode stream).results tier edited today).1 ||
    decide (streamErrs decode stream readErr ≠ []) ||
    (decide ((collect decode stream).results = []) &&
      decide (streamErrs decode stream readErr = []))

theorem judgeStream_exit : (judgeStream decode registry tier edited today stream readErr).1 =
    if verdictRed decode registry tier edited today stream readErr then .red
    else if 0 < (evaluate registry (collect decode stream).results tier edited today).2.1 then
      .excused
    else if 0 < failures (collect decode stream).results then .red
    else .green := rfl

theorem failures_pos_iff {results : List Result} :
    0 < failures results ↔ ∃ r ∈ results, r.status = .fail := by
  simp [failures, List.length_pos_iff_exists_mem]

/-- A verdict that is not red over a failing result excuses something: the last branch of
`run` is not reached with a failure. -/
theorem excused_of_failure
    (hred : verdictRed decode registry tier edited today stream readErr = false)
    (hfail : ∃ r ∈ (collect decode stream).results, r.status = .fail) :
    0 < (evaluate registry (collect decode stream).results tier edited today).2.1 := by
  obtain ⟨r, hr, hfail⟩ := hfail
  have hnot : (evaluate registry (collect decode stream).results tier edited today).1 = false := by
    simp only [verdictRed, Bool.or_eq_false_iff] at hred
    exact hred.1.1
  by_contra hnone
  exact no_failure_of_unexcused hnot (Nat.eq_zero_of_not_pos hnone) r hr hfail

theorem judgeStream_excused_iff :
    (judgeStream decode registry tier edited today stream readErr).1 = .excused ↔
      verdictRed decode registry tier edited today stream readErr = false ∧
        ∃ r ∈ (collect decode stream).results, r.status = .fail := by
  constructor
  · intro h
    have hred : verdictRed decode registry tier edited today stream readErr = false := by
      by_contra hred
      rw [judgeStream_exit, if_pos (by simpa using hred)] at h
      cases h
    exact ⟨hred, (fast_of_excused (judgeStream_excused h)).2⟩
  · rintro ⟨hred, hfail⟩
    rw [judgeStream_exit, if_neg (by simp [hred]), if_pos (excused_of_failure hred hfail)]

theorem judgeStream_congr {stream₁ stream₂ edited₁ edited₂ : List Text}
    (hedited : ∀ p, p ∈ edited₁ ↔ p ∈ edited₂)
    (hmalformed : malformed decode stream₁ = malformed decode stream₂)
    (hevents : SameEvents (events decode stream₁) (events decode stream₂)) :
    (judgeStream decode registry tier edited₁ today stream₁ readErr).1 =
      (judgeStream decode registry tier edited₂ today stream₂ readErr).1 := by
  obtain ⟨hg₁, hlen₁⟩ : Gathered (events decode stream₁) _ ∧ _ := collect_gathered stream₁
  obtain ⟨hg₂, hlen₂⟩ : Gathered (events decode stream₂) _ ∧ _ := collect_gathered stream₂
  have hsame := results_sameByKey hevents hg₁ hg₂
  have herrs : streamErrs decode stream₁ readErr = [] ↔ streamErrs decode stream₂ readErr = [] := by
    rw [streamErrs, streamErrs, List.append_eq_nil_iff, List.append_eq_nil_iff,
      ← List.length_eq_zero_iff, hlen₁, hmalformed, ← hlen₂, List.length_eq_zero_iff]
  have hnil : (collect decode stream₁).results = [] ↔ (collect decode stream₂).results = [] := by
    simp only [List.eq_nil_iff_forall_not_mem, hsame.mem_iff]
  have hfail : 0 < failures (collect decode stream₁).results ↔
      0 < failures (collect decode stream₂).results := by
    rw [failures_pos_iff, failures_pos_iff]
    simp only [hsame.mem_iff]
  have hverdict : verdictRed decode registry tier edited₁ today stream₁ readErr =
      verdictRed decode registry tier edited₂ today stream₂ readErr := by
    simp only [verdictRed, evaluate_congr hsame hedited, ne_eq, herrs, hnil]
  simp only [judgeStream_exit, hverdict, excused_congr hsame hedited, hfail]

end Exit

/-- The exit status does not depend on the order in which packages and parallel tests write:
two streams with as many lines out of place, the same events of every test, of every package
outside its tests and of the builds exit alike. It is 3 exactly when the verdict is not red
and a result failed, and 0 only if none did: a verdict that is not red over a failing result
has excused one. -/
theorem exit_of_events (decode : Text → Option Event) :
    (∀ (tierFlag todayFlag : Text) (clock : Date) (registry : RegistryFile)
      (edited₁ edited₂ stream₁ stream₂ : List Text) (readErr : Option Text),
      (∀ p, p ∈ edited₁ ↔ p ∈ edited₂) →
      malformed decode stream₁ = malformed decode stream₂ →
      SameEvents (events decode stream₁) (events decode stream₂) →
      (run decode tierFlag todayFlag clock registry edited₁ stream₁ readErr).1 =
        (run decode tierFlag todayFlag clock registry edited₂ stream₂ readErr).1) ∧
    ∀ (tierFlag todayFlag : Text) (clock : Date) (registry : RegistryFile)
      (edited stream : List Text) (readErr : Option Text),
      ((run decode tierFlag todayFlag clock registry edited stream readErr).1 = .excused ↔
        ∃ tier today text, parseTier tierFlag = some tier ∧
          parseToday todayFlag clock = some today ∧ registry.text = some text ∧
          verdictRed decode text tier edited today stream readErr = false ∧
          ∃ r ∈ (collect decode stream).results, r.status = .fail) ∧
      ((run decode tierFlag todayFlag clock registry edited stream readErr).1 = .green →
        ∀ r ∈ (collect decode stream).results, r.status ≠ .fail) ∧
      ∀ (tier : Tier) (today : Date) (text : Text),
        verdictRed decode text tier edited today stream readErr = false →
        (∃ r ∈ (collect decode stream).results, r.status = .fail) →
        0 < (evaluate text (collect decode stream).results tier edited today).2.1 := by
  constructor
  · intro tierFlag todayFlag clock registry edited₁ edited₂ stream₁ stream₂ readErr hedited
      hmalformed hevents
    rcases run_cases decode tierFlag todayFlag clock registry with
      ⟨tier, today, text, -, -, -, hrun⟩ | ⟨exit, msgs, -, -, hrun⟩
    · rw [hrun, hrun]
      exact judgeStream_congr hedited hmalformed hevents
    · rw [hrun, hrun]
  · intro tierFlag todayFlag clock registry edited stream readErr
    refine ⟨?_, ?_, fun tier today text => excused_of_failure⟩
    · rcases run_cases decode tierFlag todayFlag clock registry with
        ⟨tier, today, text, htier, htoday, htext, hrun⟩ | ⟨exit, msgs, hexit, hnone, hrun⟩
      · rw [hrun, judgeStream_excused_iff, htier, htoday, htext]
        simp
      · rw [hrun]
        refine iff_of_false (by rcases hexit with rfl | rfl <;> simp) ?_
        rintro ⟨tier, today, text, htier, htoday, htext, -⟩
        simp [htier, htoday, htext] at hnone
    · intro hgreen r hr hfail
      obtain ⟨tier, today, text, -, hj⟩ := run_eq_judgeStream hgreen (.inl rfl)
      obtain ⟨hred, -, -, -⟩ := judgeStream_not_red (by rw [hj]; decide)
      exact no_failure_of_unexcused hred (judgeStream_green hj) r hr hfail

def passEventLineY : Text :=
  "\x7b\"Action\":\"pass\",\"Package\":\"k3sm.io/y\",\"Test\":\"TestB\"\x7d".toList

def passY : Event :=
  { action := .pass, package := "k3sm.io/y".toList, test := "TestB".toList }

/-- The decoding of the lines of two packages. -/
def decodeTwo (raw : Text) : Option Event :=
  if raw = passEventLineY then some passY else decodeTestA raw

def passX : Event :=
  { action := .pass, package := "k3sm.io/x".toList, test := "TestA".toList }

theorem sameEvents_swapped : SameEvents [passX, passY] [passY, passX] where
  tests id := by
    have hne : ¬(passX.isOf id = true ∧ passY.isOf id = true) := by
      simp only [Event.isOf, Bool.and_eq_true, decide_eq_true_eq]
      rintro ⟨⟨-, hx⟩, -, hy⟩
      exact absurd (hx.trans hy.symm) (by decide)
    by_cases hx : passX.isOf id = true
    · have hy : ¬passY.isOf id = true := fun hy => hne ⟨hx, hy⟩
      simp [historyOf, hx, hy]
    · by_cases hy : passY.isOf id = true <;> simp [historyOf, hx, hy]
  packages pkg := by
    have hx : passX.test ≠ [] := by decide
    have hy : passY.test ≠ [] := by decide
    simp [outsideOf, hx, hy]
  builds := by
    have hx : passX.isBuildEvent = false := by decide
    have hy : passY.isBuildEvent = false := by decide
    simp [hx, hy]

theorem exit_of_events_swapped :
    (run decodeTwo "fast".toList [] ⟨2026, 1, 2⟩ .missing [] [passEventLine, passEventLineY]
        none).1 =
      (run decodeTwo "fast".toList [] ⟨2026, 1, 2⟩ .missing [] [passEventLineY, passEventLine]
        none).1 := by
  have hxy : events decodeTwo [passEventLine, passEventLineY] = [passX, passY] := by
    decide +kernel
  have hyx : events decodeTwo [passEventLineY, passEventLine] = [passY, passX] := by
    decide +kernel
  refine (exit_of_events decodeTwo).1 "fast".toList [] ⟨2026, 1, 2⟩ .missing [] []
    [passEventLine, passEventLineY] [passEventLineY, passEventLine] none (fun p => Iff.rfl)
    (by decide +kernel) ?_
  rw [hxy, hyx]
  exact sameEvents_swapped

end K3smApis.Quarantine
