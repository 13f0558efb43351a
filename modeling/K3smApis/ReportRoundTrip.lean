import K3smApis.ReportEncode
import K3smApis.WindowMerge

/-!
# Reports over the annotation

A node writes its report with `Encode` and the relay reads it with `ParseNodeBudgetReport`.
A valid report fits the annotation, and what is read is the report with its times cut to
seconds. Reading has merged the windowed counts of unknown reasons already, so writing and
reading once more changes nothing.
-/
namespace K3smApis.Budget
open Check GoJson Json

theorem failsWith_bind {α β : Type} {s : BudgetSentinel} {x : Except BudgetError α}
    {k : α → Except BudgetError β} (h : FailsWith s (x >>= k)) :
    FailsWith s x ∨ ∃ a, x = .ok a ∧ FailsWith s (k a) := by
  cases x with
  | error e =>
    obtain ⟨e', he, hmem⟩ := h
    cases he
    exact .inl ⟨e, rfl, hmem⟩
  | ok a => exact .inr ⟨a, rfl, h⟩

theorem NodeBudgetReport.validate_ok {r : NodeBudgetReport} :
    r.validate = .ok () ↔ r.schema = budgetAnnotationSchema ∧ r.observation.Valid := by
  unfold NodeBudgetReport.validate
  rw [bind_ok, refuseIf_ok, not_not, wrapped_ok, NodeBudgetObservation.validate_ok]

theorem encodeBudgetAnnotation_of_le {α : Type} {t : GoType α} {x : α}
    (h : (t.encode x).print.length ≤ maxBudgetAnnotationBytes) :
    encodeBudgetAnnotation t x = .ok (t.encode x).print :=
  if_neg (not_lt.mpr h)

/-- Every valid report is at most three quarters of what an annotation may hold, and `Encode`
never finds it too large. -/
theorem NodeBudgetReport.encode_fits (r : NodeBudgetReport) (h : r.validate = .ok ())
    (hyears : ∀ t ∈ r.observation.times, Rfc3339.InYears t.sec.toInt) :
    (goType.encode r).print.length ≤ 12288 ∧ 4 * 12288 = 3 * maxBudgetAnnotationBytes ∧
      ¬FailsWith .budgetAnnotationTooLarge r.encode := by
  have hlen := ((validate_ok.mp h).2.encodes_report hyears).length
  have hmax : (goType.encode r).print.length ≤ maxBudgetAnnotationBytes := hlen.trans (by decide)
  refine ⟨hlen, rfl, fun hfails => ?_⟩
  unfold NodeBudgetReport.encode at hfails
  rw [h, encodeBudgetAnnotation_of_le hmax] at hfails
  rcases failsWith_bind hfails with ⟨e, he, -⟩ | ⟨-, -, hfails⟩
  · cases he
  rcases failsWith_bind hfails with ⟨e, he, -⟩ | ⟨s, hs, hfails⟩
  · cases he
  cases hs
  rcases failsWith_bind hfails with hparse | ⟨-, -, hok⟩
  · exact absurd ((parse_tooLarge_iff _).mp hparse) (not_lt.mpr hmax)
  · exact not_failsWith_ok hok

/-- A report of a Linux node under load: two signals, and the counters of two bands. -/
def loadedReport : NodeBudgetReport where
  schema := 1
  observation := {
    observedAt := .ofUnix 1767225600
    platform := word .linux
    level := word .warn
    signals := some [
      { id := word .memoryAvailable, unit := word .bytes, value := some 900,
        warnThreshold := some 1000, criticalThreshold := some 500, warnRelease := some 1200 },
      { id := word .pidAvailable, unit := word .count, value := some 4000 }]
    counters := some [
      { band := word .standard, restartsTotal := 2 },
      { band := word .batch, evictionsTotal := 3, windows := some [
        { window := word .window1h, reason := word .eviction, count := 1 },
        { window := word .window24h, reason := word .eviction, count := 3 }] }]
    linux := some { psi := some {
      memory := some { some_ := some { avg10Permille := some 20 } } } } }

theorem encode_fits_loadedReport :
    loadedReport.validate = .ok () ∧
      (NodeBudgetReport.goType.encode loadedReport).print.length ≤ 12288 ∧
      ¬FailsWith .budgetAnnotationTooLarge loadedReport.encode := by
  have hvalid : loadedReport.validate = .ok () := by decide +kernel
  have hfits := loadedReport.encode_fits hvalid (by decide)
  exact ⟨hvalid, hfits.1, hfits.2.2⟩

theorem numbersFit_of_lexeme {v : Json} {l : Lexeme} (hv : v.lexemes = [l])
    (h : numberFits l = true) : NumbersFit v := by
  intro l' hl'
  rw [hv] at hl'
  rw [List.mem_singleton.mp (List.mem_of_mem_filter hl')]
  exact h

theorem numbersFit_ofParts : OfParts NumbersFit :=
  ⟨numbersFit_of_lexeme rfl rfl, fun _ h => numbersFit_arr.mpr h, fun _ h => numbersFit_obj.mpr h⟩

theorem leaves_signedInt {α : Type} [DecidableEq α] {bits : ℕ} {toInt : α → ℤ} {ofInt : ℤ → α}
    (h : ∀ x, (toInt x).natAbs ≤ 2 ^ 64) : (signedInt bits toInt ofInt).Leaves NumbersFit := by
  rw [signedInt, GoType.Leaves]
  exact fun x => numbersFit_of_lexeme rfl (Decimal.inFloatRange_ofInt (h x))

theorem leaves_int64 : int64.Leaves NumbersFit :=
  leaves_signedInt fun x => by have := x.le_toInt; have := x.toInt_lt; omega

theorem leaves_int32 : int32.Leaves NumbersFit :=
  leaves_signedInt fun x => by have := x.le_toInt; have := x.toInt_lt; omega

theorem leaves_bool : bool.Leaves NumbersFit := by
  rw [bool, GoType.Leaves]
  exact fun x => numbersFit_of_lexeme rfl rfl

theorem leaves_text {α : Type} {toText : α → GoString} {ofText : GoString → α} :
    (text toText ofText).Leaves NumbersFit := by
  rw [text, GoType.Leaves]
  exact fun x => numbersFit_of_lexeme rfl rfl

theorem leaves_openEnum {V : Type} [Vocabulary V] {unknown : V} :
    (openEnum unknown).Leaves NumbersFit := by
  rw [openEnum, GoType.Leaves]
  exact fun x => numbersFit_of_lexeme rfl rfl

theorem leaves_time : time.Leaves NumbersFit := by
  rw [time, GoType.Leaves]
  intro t
  show NumbersFit (encodeTime t)
  unfold encodeTime
  split_ifs <;> exact numbersFit_of_lexeme rfl rfl

theorem NodeBudgetReport.leaves : goType.Leaves NumbersFit := by
  simp only [goType, NodeBudgetObservation.fields, BudgetCapacity.goType, BudgetSignal.goType,
    BudgetRecommendation.goType, KillMode.goType, WouldKill.goType, WindowCount.goType,
    BandCounters.goType, PolicyRef.goType, PolicyRef.fields, AppliedPolicy.goType,
    DarwinCompressor.goType, DarwinSignals.goType, PSILine.goType, PSIResource.goType,
    LinuxPSI.goType, LinuxMemoryEvents.goType, LinuxSignals.goType, GoType.Leaves, Fields.Leaves,
    enum, string, leaves_int64, leaves_int32, leaves_bool, leaves_text, leaves_openEnum,
    leaves_time, and_self]

theorem numbersFit_encode (r : NodeBudgetReport) : NumbersFit (NodeBudgetReport.goType.encode r) :=
  NodeBudgetReport.goType.encode_of_leaves numbersFit_ofParts NodeBudgetReport.leaves r

theorem probeSchema_encode {r : NodeBudgetReport} (h : r.schema = budgetAnnotationSchema) :
    probeSchema (NodeBudgetReport.goType.encode r) = some (some (.num [0x31])) := by
  have hrest :
      ∀ m ∈ NodeBudgetObservation.fields.encode (NodeBudgetObservation.equiv r.observation),
      foldName m.1 ≠ foldName (lit "schema") := by
    intro m hm hfold
    have hname := Fields.mem_names_of_mem_encode hm
    have hout : lit "schema" ∉ NodeBudgetObservation.fields.names := by decide +kernel
    exact hout (folds_to_schema (.tail _ hname) hfold ▸ hname)
  have hencode : NodeBudgetReport.goType.encode r =
      .obj ((lit "schema", .num (Decimal.ofInt r.schema.toInt)) ::
        NodeBudgetObservation.fields.encode (NodeBudgetObservation.equiv r.observation)) := by
    simp only [NodeBudgetReport.goType, GoType.encode, Fields.encode, Omit.omits,
      Bool.false_eq_true,
      if_false, List.append_nil, int64, signedInt, Equiv.coe_fn_mk]
  have hone : Decimal.ofInt r.schema.toInt = [0x31] := by
    rw [h]
    decide
  rw [hencode, probeSchema, List.filter_cons_of_pos (by simp),
    List.filter_eq_nil_iff.mpr (by simpa using fun k v hm => hrest (k, v) hm), hone]
  rfl

/-- A report that is written is decoded with its times cut to seconds. -/
theorem decode_encode_report {r : NodeBudgetReport} (hschema : r.schema = budgetAnnotationSchema)
    {n : ℕ} (hn : n ≤ maxBudgetAnnotationBytes) {s : NodeBudgetReport}
    (h : Encodes NodeBudgetReport.goType r s n) :
    decodeBudgetAnnotation NodeBudgetReport.goType (NodeBudgetReport.goType.encode r).print =
      .ok s := by
  refine decodeBudgetAnnotation_ok.mpr ⟨h.length.trans hn, NodeBudgetReport.goType.encode r,
    Json.parse_eq_some.mp (Json.parse_print h.written), probeSchema_encode hschema, ?_,
    NodeBudgetReport.goType.encode_keysDistinct NodeBudgetReport.namesDistinct r,
    numbersFit_encode r, NodeBudgetReport.goType.encode_exactKeys NodeBudgetReport.namesDistinct r⟩
  rw [GoType.decode_encode NodeBudgetReport.namesDistinct]
  exact h.reads

/-- Counts with distinct keys are left as they are. -/
theorem foldl_mergeWindow_of_nodup {ws out : List WindowCount}
    (h : ((out ++ ws).map WindowCount.key).Nodup) : ws.foldl mergeWindow out = out ++ ws := by
  induction ws generalizing out with
  | nil => simp
  | cons w ws ih =>
    have hstep : mergeWindow out w = out ++ [w] := by
      rcases mergeWindow_cases out w with ⟨-, hw⟩ | ⟨-, -, hw⟩ | ⟨hw, a, u, b, rfl, hu, hwindow, -⟩
      · exact hw
      · exact hw
      · have hkey : u.key = w.key := by
          unfold WindowCount.key
          rw [hwindow, show u.reason = word .unknown from hu, show w.reason = word .unknown from hw]
        rw [List.map_append, List.nodup_append] at h
        exact absurd hkey
          (h.2.2 _ (List.mem_map_of_mem (by simp)) _ (List.mem_map_of_mem (by simp)))
    rw [List.foldl_cons, hstep, ih (by simpa using h), List.append_assoc, List.singleton_append]

theorem BandCounters.Valid.mergedWindows_nilEmpty {c : BandCounters} (h : c.Valid) :
    c.nilEmpty.mergedWindows = c.nilEmpty := by
  have hwindows : mergeUnknownWindows (appended c.windows.list) = appended c.windows.list := by
    rw [mergeUnknownWindows_eq, appended_list,
      foldl_mergeWindow_of_nodup (by simpa using h.distinct), List.nil_append]
  exact congrArg (fun ws => { c with windows := ws }) hwindows

theorem appended_map {α β : Type} (f : α → β) (l : List α) :
    Option.map (List.map f) (appended l) = appended (l.map f) := by
  cases l <;> rfl

theorem NodeBudgetReport.merged_relayed {r : NodeBudgetReport} (h : r.observation.Valid) :
    r.relayed.merged = r.relayed := by
  have hcounters : Option.map (List.map BandCounters.mergedWindows)
      (appended (r.observation.counters.list.map BandCounters.nilEmpty)) =
      appended (r.observation.counters.list.map BandCounters.nilEmpty) := by
    rw [appended_map, List.map_map]
    exact congrArg appended (List.map_congr_left fun c hc =>
      (h.counters c hc).mergedWindows_nilEmpty)
  exact congrArg (fun cs => { r.relayed with observation :=
    { r.relayed.observation with counters := cs } }) hcounters

theorem NodeBudgetObservation.times_mapTimes (f : Time → Time) (o : NodeBudgetObservation) :
    (o.mapTimes f).nilEmpty.times = o.times.map f := by
  unfold times mapTimes nilEmpty
  cases o.evictDeadline <;> cases o.wouldKill <;> rfl

theorem BandCounters.Valid.nilEmpty {c : BandCounters} (h : c.Valid) : c.nilEmpty.Valid := by
  have hlist : c.nilEmpty.windows.list = c.windows.list := appended_list _
  exact ⟨h.band, h.totals, hlist ▸ h.length, hlist ▸ h.windows, hlist ▸ h.distinct⟩

theorem AppliedPolicy.Valid.nilEmpty {p : AppliedPolicy} (h : p.Valid) : p.nilEmpty.Valid := by
  have hlist : p.nilEmpty.clampedFields.list = p.clampedFields.list := appended_list _
  exact ⟨h.ref, h.outcome, hlist ▸ h.length, hlist ▸ h.fields, hlist ▸ h.distinct⟩

/-- Validity looks at a time only for whether it is set, and not at all at whether an empty
slice is nil. -/
theorem NodeBudgetObservation.Valid.mapTimes {o : NodeBudgetObservation} (h : o.Valid)
    {f : Time → Time} (hf : ∀ t ∈ o.times, (f t).isZero = false) :
    (o.mapTimes f).nilEmpty.Valid := by
  have hsignals : (o.mapTimes f).nilEmpty.signals.list = o.signals.list := appended_list _
  have hcounters : (o.mapTimes f).nilEmpty.counters.list =
      o.counters.list.map BandCounters.nilEmpty := appended_list _
  have hbands : (o.mapTimes f).nilEmpty.counters.list.map BandCounters.band =
      o.counters.list.map BandCounters.band := by
    rw [hcounters, List.map_map]
    rfl
  exact { h with
    observedAt := hf _ (.head _)
    evictDeadline := by
      intro t ht
      obtain ⟨u, hu, rfl⟩ := Option.mem_map.mp ht
      exact hf u (.tail _ (List.mem_append_left _ (Option.mem_toList.mpr hu)))
    signalCount := hsignals ▸ h.signalCount
    signals := hsignals ▸ h.signals
    signalsDistinct := hsignals ▸ h.signalsDistinct
    wouldKill := by
      intro w hw
      obtain ⟨u, hu, rfl⟩ := Option.mem_map.mp hw
      refine ⟨(h.wouldKill u hu).band, (h.wouldKill u hu).reason, hf u.at_ ?_⟩
      exact .tail _ (List.mem_append_right _ (List.mem_map_of_mem (Option.mem_toList.mpr hu)))
    counterCount := by
      rw [hcounters, List.length_map]
      exact h.counterCount
    counters := by
      rw [hcounters]
      exact List.forall_mem_map.mpr fun c hc => (h.counters c hc).nilEmpty
    countersDistinct := hbands ▸ h.countersDistinct
    policy := by
      intro p hp
      obtain ⟨q, hq, rfl⟩ := Option.mem_map.mp hp
      exact (h.policy q hq).nilEmpty
    policyInForce := by
      intro p hp
      obtain ⟨q, hq, rfl⟩ := Option.mem_map.mp hp
      exact h.policyInForce q hq }

/-- The instant of a time, in UTC. -/
def Time.atUTC (t : Time) : Time := { t with loc := .utc }

/-- A time cut to whole seconds. -/
def Time.cut (t : Time) : Time := { Time.ofUnix t.unix with loc := t.loc }

theorem Time.cut_eq_self {t : Time} (h : t.nsec.val = 0) : t.cut = t := by
  have hnsec : (Time.ofUnix t.unix).nsec = t.nsec := Fin.ext h.symm
  exact congrArg (fun nsec => { t with nsec := nsec }) hnsec

def NodeBudgetReport.cut (r : NodeBudgetReport) : NodeBudgetReport :=
  { r with observation := r.observation.mapTimes Time.cut }

/-- Two reports are the same but for the location of their times and for which of their
empty slices are nil. -/
def NodeBudgetReport.Alike (r s : NodeBudgetReport) : Prop :=
  r.schema = s.schema ∧
    (r.observation.mapTimes Time.atUTC).nilEmpty = (s.observation.mapTimes Time.atUTC).nilEmpty

/-- Every string of a producer vocabulary that is set is a word of it. -/
structure NodeBudgetObservation.WordsKnown (o : NodeBudgetObservation) : Prop where
  trend : ∀ s ∈ o.signals.list, UnsetOrKnown s.trend
  limitingResource : ∀ s ∈ o.signals.list, UnsetOrKnown s.limitingResource
  killMode : UnsetOrKnown o.killMode.reason
  wouldKill : ∀ w ∈ o.wouldKill, Known w.reason
  windows : ∀ c ∈ o.counters.list, ∀ w ∈ c.windows.list, Known w.reason

theorem NodeBudgetObservation.Valid.wordsKnown {o : NodeBudgetObservation} (h : o.Valid) :
    o.WordsKnown where
  trend s hs := (h.signals s hs).trend
  limitingResource s hs := (h.signals s hs).limitingResource
  killMode := h.killMode.reason
  wouldKill w hw := (h.wouldKill w hw).reason
  windows c hc w hw := ((h.counters c hc).windows w hw).reason

theorem NodeBudgetObservation.mapTimes_mapTimes (f g : Time → Time) (o : NodeBudgetObservation) :
    (o.mapTimes f).mapTimes g = o.mapTimes (g ∘ f) := by
  unfold mapTimes
  cases o.evictDeadline <;> cases o.wouldKill <;> rfl

theorem BandCounters.nilEmpty_nilEmpty (c : BandCounters) : c.nilEmpty.nilEmpty = c.nilEmpty := by
  unfold nilEmpty
  rw [appended_list]

theorem AppliedPolicy.nilEmpty_nilEmpty (p : AppliedPolicy) : p.nilEmpty.nilEmpty = p.nilEmpty := by
  unfold nilEmpty
  rw [appended_list]

theorem NodeBudgetObservation.nilEmpty_nilEmpty (o : NodeBudgetObservation) :
    o.nilEmpty.nilEmpty = o.nilEmpty := by
  have hcounters : (o.counters.list.map BandCounters.nilEmpty).map BandCounters.nilEmpty =
      o.counters.list.map BandCounters.nilEmpty := by
    rw [List.map_map]
    exact List.map_congr_left fun c _ => c.nilEmpty_nilEmpty
  have hpolicy : (o.policy.map AppliedPolicy.nilEmpty).map AppliedPolicy.nilEmpty =
      o.policy.map AppliedPolicy.nilEmpty := by
    rw [Option.map_map]
    exact Option.map_congr fun p _ => p.nilEmpty_nilEmpty
  simp only [nilEmpty, appended_list, hcounters, hpolicy]

theorem NodeBudgetObservation.mapTimes_nilEmpty (f : Time → Time) (o : NodeBudgetObservation) :
    o.nilEmpty.mapTimes f = (o.mapTimes f).nilEmpty := rfl

theorem NodeBudgetReport.relayed_relayed (r : NodeBudgetReport) :
    r.relayed.relayed = r.relayed := by
  have hobservation : (((r.observation.mapTimes Time.relayed).nilEmpty).mapTimes
      Time.relayed).nilEmpty = (r.observation.mapTimes Time.relayed).nilEmpty := by
    rw [NodeBudgetObservation.mapTimes_nilEmpty, NodeBudgetObservation.nilEmpty_nilEmpty,
      NodeBudgetObservation.mapTimes_mapTimes]
    rfl
  exact congrArg (fun o => { r with observation := o }) hobservation

/-- What is read is the report with its times cut. -/
theorem NodeBudgetReport.relayed_alike (r : NodeBudgetReport) : r.relayed.Alike r.cut := by
  refine ⟨rfl, ?_⟩
  show ((r.observation.mapTimes Time.relayed).nilEmpty.mapTimes Time.atUTC).nilEmpty =
    ((r.observation.mapTimes Time.cut).mapTimes Time.atUTC).nilEmpty
  rw [NodeBudgetObservation.mapTimes_nilEmpty, NodeBudgetObservation.nilEmpty_nilEmpty,
    NodeBudgetObservation.mapTimes_mapTimes, NodeBudgetObservation.mapTimes_mapTimes]
  rfl

theorem NodeBudgetReport.cut_eq_self {r : NodeBudgetReport}
    (h : ∀ t ∈ r.observation.times, t.nsec.val = 0) : r.cut = r := by
  have hcut : ∀ t ∈ r.observation.times, t.cut = t := fun t ht => Time.cut_eq_self (h t ht)
  have hdeadline : r.observation.evictDeadline.map Time.cut = r.observation.evictDeadline := by
    refine (Option.map_congr fun t ht => hcut t ?_).trans Option.map_id'
    exact .tail _ (List.mem_append_left _ (Option.mem_toList.mpr ht))
  have hkill : r.observation.wouldKill.map (WouldKill.mapTime Time.cut) =
      r.observation.wouldKill := by
    refine (Option.map_congr fun w hw => ?_).trans Option.map_id'
    unfold WouldKill.mapTime
    rw [hcut w.at_ (.tail _ (List.mem_append_right _
      (List.mem_map_of_mem (Option.mem_toList.mpr hw))))]
  unfold NodeBudgetReport.cut NodeBudgetObservation.mapTimes
  rw [hcut _ (.head _), hdeadline, hkill]

/-- A time that is set and can be written, once it is cut. -/
def Time.Writable (t : Time) : Prop := t.cut.isZero = false ∧ Rfc3339.InYears t.cut.sec.toInt

/-- Writing a valid report and reading it. -/
theorem NodeBudgetReport.relay {r : NodeBudgetReport} (hschema : r.schema = budgetAnnotationSchema)
    (h : r.observation.Valid) (htimes : ∀ t ∈ r.observation.times, t.Writable) :
    ∃ v, r.encode = .ok v ∧ parseNodeBudgetReport v = .ok r.relayed := by
  have hencodes := h.encodes_report fun t ht => (htimes t ht).2
  have hmax : (12288 : ℕ) ≤ maxBudgetAnnotationBytes := by decide
  have hparse : parseNodeBudgetReport (goType.encode r).print = .ok r.relayed := by
    refine parseNodeBudgetReport_ok.mpr ⟨r.relayed, decode_encode_report hschema hmax hencodes,
      (merged_relayed h).symm, ?_⟩
    rw [merged_relayed h]
    exact h.mapTimes fun t ht => (htimes t ht).1
  refine ⟨(goType.encode r).print, ?_, hparse⟩
  unfold NodeBudgetReport.encode
  rw [validate_ok.mpr ⟨hschema, h⟩, encodeBudgetAnnotation_of_le (hencodes.length.trans hmax)]
  show (parseNodeBudgetReport _ >>= fun _ => .ok _) = _
  rw [hparse]
  rfl

/-- What was read once is written and read again as it is. -/
theorem NodeBudgetReport.relay_again {r : NodeBudgetReport}
    (hschema : r.schema = budgetAnnotationSchema) (h : r.observation.Valid)
    (htimes : ∀ t ∈ r.observation.times, t.Writable) :
    ∃ v, r.relayed.encode = .ok v ∧ parseNodeBudgetReport v = .ok r.relayed := by
  have hvalid : r.relayed.observation.Valid := h.mapTimes fun t ht => (htimes t ht).1
  have hagain : ∀ t ∈ r.relayed.observation.times, t.Writable := by
    show ∀ t ∈ (r.observation.mapTimes Time.relayed).nilEmpty.times, t.Writable
    rw [NodeBudgetObservation.times_mapTimes]
    exact List.forall_mem_map.mpr fun t ht => htimes t ht
  have hrelay := relay (r := r.relayed) hschema hvalid hagain
  rwa [relayed_relayed] at hrelay

/-- The round trip in both directions, and the words of a report that was read. -/
theorem report_roundTrip :
    (∀ r : NodeBudgetReport, r.validate = .ok () →
      (∀ t ∈ r.observation.times, t.isZero = false ∧ t.nsec.val = 0 ∧
        Rfc3339.InYears t.sec.toInt) →
      ∃ v s, r.encode = .ok v ∧ parseNodeBudgetReport v = .ok s ∧ s.Alike r) ∧
    (∀ (value : GoString) (r : NodeBudgetReport), parseNodeBudgetReport value = .ok r →
      (∀ t ∈ r.observation.times, t.Writable) →
      ∃ v s, r.encode = .ok v ∧ parseNodeBudgetReport v = .ok s ∧ s.Alike r.cut ∧
        ∃ w, s.encode = .ok w ∧ parseNodeBudgetReport w = .ok s) ∧
    (∀ (value : GoString) (r : NodeBudgetReport), parseNodeBudgetReport value = .ok r →
      r.observation.WordsKnown) := by
  refine ⟨fun r hr htimes => ?_, fun value r hr htimes => ?_, fun value r hr => ?_⟩
  · obtain ⟨hschema, hvalid⟩ := NodeBudgetReport.validate_ok.mp hr
    have hcut : r.cut = r := NodeBudgetReport.cut_eq_self fun t ht => (htimes t ht).2.1
    obtain ⟨v, hencode, hparse⟩ := NodeBudgetReport.relay hschema hvalid fun t ht => by
      obtain ⟨hset, hnsec, hyears⟩ := htimes t ht
      refine ⟨?_, hyears⟩
      rw [Time.cut_eq_self hnsec]
      exact hset
    have halike := r.relayed_alike
    rw [hcut] at halike
    exact ⟨v, r.relayed, hencode, hparse, halike⟩
  · obtain ⟨s, hs, rfl, hvalid⟩ := parseNodeBudgetReport_ok.mp hr
    have hschema : s.merged.schema = budgetAnnotationSchema := by
      show s.schema = _
      exact decoded_schema hs
    obtain ⟨v, hencode, hparse⟩ := NodeBudgetReport.relay hschema hvalid htimes
    exact ⟨v, _, hencode, hparse, s.merged.relayed_alike,
      NodeBudgetReport.relay_again hschema hvalid htimes⟩
  · obtain ⟨s, -, rfl, hvalid⟩ := parseNodeBudgetReport_ok.mp hr
    exact hvalid.wordsKnown

/-- The text of such a report, with an empty list, half a second and a reason of a later
release. -/
def loadedText : GoString :=
  lit "\x7b\"schema\":1,\"observedAt\":\"2026-01-01T00:00:00.5Z\",\"platform\":\"linux\"," ++
  lit "\"level\":\"warn\",\"signals\":[\x7b\"id\":\"memory.available\",\"unit\":\"bytes\"," ++
  lit "\"value\":900\x7d,\x7b\"id\":\"pid.available\",\"unit\":\"count\"\x7d],\"counters\":[]," ++
  lit "\"killMode\":\x7b\"mode\":\"auto\",\"reason\":\"new\"\x7d,\"linux\":\x7b\x7d\x7d"

/-- What it is read as. -/
def loadedRead : NodeBudgetReport where
  schema := 1
  observation := {
    observedAt := ⟨1767225600, ⟨500000000, by decide⟩, .localTime⟩
    platform := word .linux
    level := word .warn
    signals := some [{ id := word .memoryAvailable, unit := word .bytes, value := some 900 },
      { id := word .pidAvailable, unit := word .count }]
    counters := some []
    killMode := { mode := word .auto, reason := word .unknown }
    linux := some {} }

theorem report_roundTrip_loaded :
    loadedReport.validate = .ok () ∧
    (∃ v s, loadedReport.encode = .ok v ∧ parseNodeBudgetReport v = .ok s ∧ s.Alike loadedReport) ∧
    parseNodeBudgetReport loadedText = .ok loadedRead ∧
    (∃ v s, loadedRead.encode = .ok v ∧ parseNodeBudgetReport v = .ok s ∧ s.Alike loadedRead.cut ∧
      ∃ w, s.encode = .ok w ∧ parseNodeBudgetReport w = .ok s) ∧
    loadedRead.observation.WordsKnown := by
  have hvalid : loadedReport.validate = .ok () := by decide +kernel
  have hparse : parseNodeBudgetReport loadedText = .ok loadedRead := by decide +kernel
  have htimes : ∀ t ∈ loadedRead.observation.times, t.Writable := by
    intro t ht
    rw [List.mem_singleton.mp ht]
    exact ⟨by decide, by decide⟩
  exact ⟨hvalid, report_roundTrip.1 loadedReport hvalid (by decide), hparse,
    report_roundTrip.2.1 loadedText loadedRead hparse htimes,
    report_roundTrip.2.2 loadedText loadedRead hparse⟩

end K3smApis.Budget
