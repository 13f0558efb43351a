import K3smApis.StatusSchema
import K3smApis.ReportRoundTrip

/-!
# What the relay validates, the API server admits

A status that holds a valid observation, a valid writer and no conditions, against the status
schema. Every bound, enumeration, key and rule follows from validation, so admission rests on
the timestamps alone: they are written in UTC, and the schema reads years of four digits.
-/
namespace K3smApis.Budget
open GoJson Schema
open Cel (Expr)

/-- A field fits the property found under its name. -/
theorem fit {α : Type} {ps : Properties} {name : GoString} {o : Omit} {t : GoType α} {s : Schema}
    {x : α} (hfind : ps.find? name = some s) (h : FieldFits o t s x) :
    ∀ s' ∈ ps.find? name, FieldFits o t s' x := by
  intro s' hs'
  rw [hfind, Option.mem_some_iff] at hs'
  exact hs' ▸ h

theorem fits_int64Ptr {v : Option Int64} (h : NonNeg v) :
    FieldFits .empty (.ptr int64) (int64From 0) v :=
  fits_ptr.mpr fun n hn => accepts_int64From.mpr (h n hn)

theorem fits_permillePtr {v : Option Int64} (h : Permille v) :
    FieldFits .empty (.ptr int64) permille64 v :=
  fits_ptr.mpr fun n hn => accepts_permille64.mpr (h n hn)

theorem fits_int64 {o : Omit} {n : Int64} (h : 0 ≤ n.toInt) : FieldFits o int64 (int64From 0) n :=
  .inr (accepts_int64From.mpr h)

theorem fits_bool {o : Omit} {b : Bool} : FieldFits o bool .boolean b := .inr rfl

theorem fits_boolPtr {b : Option Bool} : FieldFits .empty (.ptr bool) .boolean b :=
  fits_ptr.mpr fun _ _ => rfl

/-- The year of a time has four digits in UTC. -/
def FourDigitYear (t : Time) : Prop :=
  0 ≤ Rfc3339.year t.sec.toInt ∧ Rfc3339.year t.sec.toInt ≤ 9999

instance (t : Time) : Decidable (FourDigitYear t) := inferInstanceAs (Decidable (_ ∧ _))

theorem accepts_time {t : Time} (hset : t.isZero = false) :
    dateTime.accepts (time.encode t) = true ↔ FourDigitYear t := by
  have hencode : time.encode t = .str (Rfc3339.format t.sec.toInt) := by
    show encodeTime t = _
    rw [encodeTime, hset, if_neg Bool.false_ne_true]
  rw [hencode, FourDigitYear, ← Rfc3339.isDateTime_format]
  simp [dateTime, Schema.accepts, StringRules.accepts]

/-- ASCII text has as many characters as bytes. -/
theorem length_runes {s : GoString} (h : ∀ b ∈ s, b < 0x80) : (Utf8.runes s).length = s.length := by
  rw [Utf8.runes_of_ascii h, List.length_map]

theorem accepts_nameText {s : GoString} (h : isObjectName s = true) :
    nameText.accepts (.str s) = true := by
  obtain ⟨hdotted, hlen⟩ := isDotted_of_isObjectName h
  have hascii : (lit "." ++ DnsName.dashAlnum).all (· < 0x80) = true := by decide
  have hruns := length_runes fun b hb =>
    of_decide_eq_true (List.all_eq_true.mp hascii b (hdotted.bytes b hb))
  have hmatch : DnsName.subdomain.rmatch s = true := (of_decide_eq_true h).2
  simp [nameText, Schema.accepts, StringRules.accepts, hruns, hlen, hmatch]

theorem fits_versionText {v : GoString}
    (h : v = [] ∨ isPrintableASCII v maxPolicyResourceVersionBytes = true) :
    FieldFits .empty string versionText v := by
  refine h.imp (fun hempty => ?_) (fun hprintable => ?_)
  · subst hempty
    rfl
  · obtain ⟨hplain, hlen⟩ := plain_of_isPrintableASCII hprintable
    have hascii : ∀ b ∈ v, b < 0x80 := fun b hb =>
      UInt8.lt_of_le_of_lt (hplain b hb).2 (show (0x7e : UInt8) < 0x80 by decide)
    show versionText.accepts (.str v) = true
    have hmax : v.length ≤ 64 := hlen
    simp [versionText, Schema.accepts, StringRules.accepts, length_runes hascii, hmax]

theorem lists_units : Lists SignalUnit ["bytes", "permille", "count"] := ⟨by decide, rfl⟩

theorem lists_trends : Lists Trend ["falling", "steady", "rising", "unknown"] :=
  ⟨by decide, rfl⟩

theorem lists_resources : Lists LimitingResource
    ["memory", "swapfs", "nodefs", "imagefs", "pid", "cpu", "unknown"] := ⟨by decide, rfl⟩

theorem lists_modeReasons : Lists KillModeReason
    ["cold-start", "observing", "armed", "policy-off", "disarm-file", "unknown"] :=
  ⟨by decide, rfl⟩

theorem lists_bands : Lists Band bandWords := ⟨by decide, rfl⟩

theorem lists_killReasons : Lists WouldKillReason ["held-pressure", "memory-floor", "unknown"] :=
  ⟨by decide, rfl⟩

theorem lists_windows : Lists CounterWindow ["1h", "24h"] := ⟨by decide, rfl⟩

theorem lists_counterReasons : Lists CounterReason ["eviction", "oom-kill", "kernel-kill",
    "restart", "mem-high", "tier1-refused", "unknown"] := ⟨by decide, rfl⟩

theorem lists_outcomes : Lists PolicyOutcome ["applied", "rejected", "clamped"] :=
  ⟨by decide, rfl⟩

theorem lists_policyFields : Lists PolicyField ["tier1GraceSeconds", "tier1HeldSeconds",
    "tier1MaxDeliveriesPerHour", "tier1CooloffSeconds", "reserves.cpuSystemReserveMilli",
    "reserves.memSystemReserveBytes", "reserves.memEvictionReserveBytes"] :=
  ⟨by decide, rfl⟩

theorem lists_shapes : Lists WriterShape ["annotation-relay", "own-node"] :=
  ⟨by decide, rfl⟩

theorem lists_platforms : Lists Platform ["darwin", "linux"] := ⟨by decide, rfl⟩

theorem lists_levels : Lists Level ["ok", "warn", "critical", "evicting"] :=
  ⟨by decide, rfl⟩

theorem BudgetCapacity.Valid.accepted {c : BudgetCapacity} (h : c.Valid) :
    BudgetCapacity.schema.accepts (BudgetCapacity.goType.encode c) = true :=
  accepts_plainStruct.mpr
    ⟨fit rfl (fits_int64Ptr h.cpuCapacityMilli), fit rfl (fits_int64Ptr h.cpuSystemReserveMilli),
      fit rfl (fits_int64Ptr h.memCapacityBytes), fit rfl (fits_int64Ptr h.memSystemReserveBytes),
      fit rfl (fits_int64Ptr h.memEvictionReserveBytes),
      fit rfl (fits_int64Ptr h.memAllocatableBytes), fit rfl (fits_int64Ptr h.swapTotalBytes),
      fit rfl (fits_int64Ptr h.swapUsedBytes), fit rfl (fits_int64Ptr h.cpuPerformanceCores),
      fit rfl (fits_int64Ptr h.cpuEfficiencyCores), fit rfl fits_boolPtr,
      fit rfl (fits_int64Ptr h.gpuCount), trivial⟩

theorem BudgetRecommendation.accepted {r : BudgetRecommendation}
    (hbytes : NonNeg r.safeAdditionalBytes) (hbasis : UnsetOrKnown r.basis) :
    BudgetRecommendation.schema.accepts (BudgetRecommendation.goType.encode r) = true :=
  accepts_plainStruct.mpr
    ⟨fit rfl (fits_int64Ptr hbytes), fit rfl (lists_signals.fits_empty.mpr hbasis), trivial⟩

theorem KillMode.Valid.accepted {k : KillMode} (h : k.Valid) :
    KillMode.schema.accepts (KillMode.goType.encode k) = true :=
  accepts_plainStruct.mpr
    ⟨fit rfl (lists_killModes.fits_empty.mpr h.mode_known), fit rfl fits_bool,
      fit rfl (.inr (accepts_int32.mpr (by simpa using h.armingEpisodes))),
      fit rfl (lists_modeReasons.fits_empty.mpr h.reason), trivial⟩

theorem DarwinSignals.Valid.accepted {d : DarwinSignals} (h : d.Valid) :
    DarwinSignals.schema.accepts (DarwinSignals.goType.encode d) = true := by
  have hcompressor (c : DarwinCompressor) (hc : c ∈ d.compressor) :
      DarwinCompressor.schema.accepts (DarwinCompressor.goType.encode c) = true := by
    obtain ⟨hused, hstored, hlimit⟩ := h.compressor c hc
    exact accepts_plainStruct.mpr ⟨fit rfl (fits_int64Ptr hused), fit rfl (fits_int64Ptr hstored),
      fit rfl (fits_int64Ptr hlimit), trivial⟩
  exact accepts_plainStruct.mpr
    ⟨fit rfl (fits_int64Ptr h.vmPressureLevel),
      fit rfl (fits_permillePtr h.memorystatusLevelPermille), fit rfl (fits_ptr.mpr hcompressor),
      fit rfl (fits_int64Ptr h.swapinsTotal), fit rfl (fits_int64Ptr h.swapoutsTotal), trivial⟩

theorem PSILine.Valid.accepted {l : PSILine} (h : l.Valid) :
    PSILine.schema.accepts (PSILine.goType.encode l) = true :=
  accepts_plainStruct.mpr
    ⟨fit rfl (fits_permillePtr h.avg10Permille), fit rfl (fits_permillePtr h.avg60Permille),
      fit rfl (fits_int64Ptr h.totalUs), trivial⟩

theorem PSIResource.Valid.accepted {r : PSIResource} (h : r.Valid) :
    PSIResource.schema.accepts (PSIResource.goType.encode r) = true :=
  accepts_plainStruct.mpr
    ⟨fit rfl (fits_ptr.mpr fun l hl => (h.1 l hl).accepted),
      fit rfl (fits_ptr.mpr fun l hl => (h.2 l hl).accepted), trivial⟩

theorem LinuxPSI.Valid.accepted {p : LinuxPSI} (h : p.Valid) :
    LinuxPSI.schema.accepts (LinuxPSI.goType.encode p) = true :=
  accepts_plainStruct.mpr
    ⟨fit rfl (fits_ptr.mpr fun r hr => (h.1 r hr).accepted),
      fit rfl (fits_ptr.mpr fun r hr => (h.2.1 r hr).accepted),
      fit rfl (fits_ptr.mpr fun r hr => (h.2.2 r hr).accepted), trivial⟩

theorem LinuxMemoryEvents.Valid.accepted {e : LinuxMemoryEvents} (h : e.Valid) :
    LinuxMemoryEvents.schema.accepts (LinuxMemoryEvents.goType.encode e) = true :=
  accepts_plainStruct.mpr
    ⟨fit rfl (fits_int64Ptr h.high), fit rfl (fits_int64Ptr h.max), fit rfl (fits_int64Ptr h.oom),
      fit rfl (fits_int64Ptr h.oomKill), trivial⟩

theorem LinuxSignals.Valid.accepted {l : LinuxSignals} (h : l.Valid) :
    LinuxSignals.schema.accepts (LinuxSignals.goType.encode l) = true :=
  accepts_plainStruct.mpr
    ⟨fit rfl (fits_ptr.mpr fun p hp => (h.1 p hp).accepted),
      fit rfl (fits_ptr.mpr fun e he => (h.2 e he).accepted), trivial⟩

theorem BudgetWriter.accepted {w : BudgetWriter} (h : Known w.shape) :
    BudgetWriter.schema.accepts (BudgetWriter.goType.encode w) = true :=
  (accepts_required (by decide) rfl).mpr
    ⟨fit rfl (lists_shapes.fits_never.mpr h), fit rfl fits_bool, trivial⟩

/-- A would-be kill that validates is refused for its timestamp only. -/
theorem WouldKill.Valid.accepted_iff {w : WouldKill} (h : w.Valid) :
    WouldKill.schema.accepts (WouldKill.goType.encode w) = true ↔ FourDigitYear w.at_ := by
  rw [WouldKill.schema, WouldKill.goType, accepts_required (by decide) rfl]
  constructor
  · rintro ⟨-, -, hat, -⟩
    exact (accepts_time h.set).mp (fits_never.mp (hat dateTime rfl))
  · intro hat
    exact ⟨fit rfl (lists_bands.fits_never.mpr h.band),
      fit rfl (lists_killReasons.fits_never.mpr h.reason),
      fit rfl (fits_never.mpr ((accepts_time h.set).mpr hat)), trivial⟩

theorem WindowCount.Valid.accepted {w : WindowCount} (h : w.Valid) :
    WindowCount.schema.accepts (WindowCount.goType.encode w) = true :=
  (accepts_required (by decide) rfl).mpr
    ⟨fit rfl (lists_windows.fits_never.mpr h.window),
      fit rfl (lists_counterReasons.fits_never.mpr h.reason), fit rfl (fits_int64 h.count), trivial⟩

theorem PolicyRef.Valid.accepted {r : PolicyRef} (h : r.Valid) :
    PolicyRef.schema.accepts (PolicyRef.goType.encode r) = true :=
  (accepts_required (by decide) rfl).mpr
    ⟨fit rfl (fits_never.mpr (accepts_nameText h.name)), fit rfl (fits_versionText h.version),
      trivial⟩

/-- The keys a list map reads from a field that is always encoded. -/
theorem WindowCount.itemKey_inj {w u : WindowCount} (hu : u.Valid) :
    itemKey ["window", "reason"] (WindowCount.goType.encode w) =
      itemKey ["window", "reason"] (WindowCount.goType.encode u) ↔ w.key = u.key := by
  have hkey (x : WindowCount) : itemKey ["window", "reason"] (WindowCount.goType.encode x) =
      [some (.str (Utf8.runes x.window.text)), some (.str (Utf8.runes x.reason.text))] := rfl
  have hcount : w.key = u.key ↔ w.window = u.window ∧ w.reason = u.reason := by
    cases w
    cases u
    simp [WindowCount.key]
  simp only [hkey, hcount, List.cons.injEq, Option.some.injEq, Cel.Scalar.str.injEq, and_true,
    lists_windows.runes_inj hu.window, lists_counterReasons.runes_inj hu.reason]

theorem BandCounters.Valid.accepted {c : BandCounters} (h : c.Valid) :
    BandCounters.schema.accepts (BandCounters.goType.encode c) = true := by
  have htotals := h.totals
  simp only [BandCounters.totals, List.forall_mem_cons] at htotals
  obtain ⟨h1, h2, h3, h4, h5, h6, -⟩ := htotals
  have hwindows : FieldFits .empty (.slice WindowCount.goType)
      (.array 12 (.map ["window", "reason"]) WindowCount.schema) c.windows :=
    fits_slice.mpr ⟨h.length, (listMap_accepts fun w _ u hu =>
      WindowCount.itemKey_inj (h.windows u hu)).mpr h.distinct,
      fun w hw => (h.windows w hw).accepted⟩
  exact (accepts_required (by decide) rfl).mpr
    ⟨fit rfl (lists_bands.fits_never.mpr h.band), fit rfl (fits_int64 h1), fit rfl (fits_int64 h2),
      fit rfl (fits_int64 h3), fit rfl (fits_int64 h4), fit rfl (fits_int64 h5),
      fit rfl (fits_int64 h6), fit rfl hwindows, trivial⟩

theorem BandCounters.itemKey_inj {c d : BandCounters} (hd : d.Valid) :
    itemKey ["band"] (BandCounters.goType.encode c) =
      itemKey ["band"] (BandCounters.goType.encode d) ↔ c.band = d.band := by
  have hkey (x : BandCounters) : itemKey ["band"] (BandCounters.goType.encode x) =
      [some (.str (Utf8.runes x.band.text))] := rfl
  rw [hkey, hkey, lists_bands.key_inj hd.band]

theorem AppliedPolicy.Valid.accepted {p : AppliedPolicy} (h : p.Valid) :
    AppliedPolicy.schema.accepts (AppliedPolicy.goType.encode p) = true := by
  have hscalar (f : Wire PolicyField) :
      Cel.scalar? (enum.encode f) = some (.str (Utf8.runes f.text)) := rfl
  have hset : ListType.set.accepts (p.clampedFields.list.map enum.encode) = true := by
    refine (listSet_accepts fun f _ g hg => ?_).mpr h.distinct
    rw [hscalar, hscalar, Option.some.injEq, Cel.Scalar.str.injEq]
    exact lists_policyFields.runes_inj (h.fields g hg)
  exact (accepts_required (by decide) rfl).mpr
    ⟨⟨fit rfl (fits_never.mpr (accepts_nameText h.ref.name)),
        fit rfl (fits_versionText h.ref.version), trivial⟩,
      fit rfl (lists_outcomes.fits_never.mpr h.outcome),
      fit rfl (fits_slice.mpr ⟨h.length, hset, fun f hf =>
        lists_policyFields.accepts.mpr (h.fields f hf)⟩), trivial⟩

/-- The members of a signal that its rules read. -/
theorem BudgetSignal.encode_members (s : BudgetSignal) :
    ∃ ms, BudgetSignal.goType.encode s = .obj ms ∧
      member? ms (lit "id") = some (.str s.id.text) ∧
      member? ms (lit "unit") = some (.str s.unit.text) ∧
      ∀ n ∈ rungNames ++ releaseNames,
        member? ms (lit n) = (ladderValue s.rungs s.releases n).map int64.encode := by
  refine ⟨_, by rw [BudgetSignal.goType, GoType.encode], ?_, ?_, ?_⟩
  · rw [member?_encode (by decide)]
    rfl
  · rw [member?_encode (by decide)]
    rfl
  · intro n
    rw [member?_encode (by decide)]
    revert n
    simp only [rungNames, releaseNames, List.cons_append, List.nil_append, List.forall_mem_cons,
      fieldValue, lit_inj, String.reduceEq, reduceIte, value_ptr, Equiv.coe_fn_mk]
    exact ⟨rfl, rfl, rfl, rfl, rfl, rfl, rfl, rfl, rfl, rfl, by simp⟩

theorem holds_unitRule {ms : List (GoString × Json)} {v : SignalID}
    (hid : member? ms (lit "id") = some (.str (word v).text))
    (hunit : member? ms (lit "unit") = some (.str (unitOf (word v)).text)) :
    unitRule.holds (.obj ms) = true := by
  have hid' : (Cel.at? ["id"] (.obj ms)).bind Cel.scalar? =
      some (.str (Utf8.runes (word v).text)) := by
    rw [Cel.at?_one, hid]
    rfl
  have hunit' : (Cel.at? ["unit"] (.obj ms)).bind Cel.scalar? =
      some (.str (Utf8.runes (unitOf (word v)).text)) := by
    rw [Cel.at?_one, hunit]
    rfl
  rw [Cel.holds_iff]
  simp only [unitRule, Cel.eval, hid', hunit']
  cases v <;> decide

theorem BudgetSignal.Valid.accepted {s : BudgetSignal} (h : s.Valid) :
    BudgetSignal.schema.accepts (BudgetSignal.goType.encode s) = true := by
  obtain ⟨ms, hms, hid, hunit, hval⟩ := s.encode_members
  obtain ⟨v, hv⟩ := h.id
  have hladder := h.ladder
  rw [hv] at hid hladder
  rw [h.unit, hv] at hunit
  obtain ⟨hr, hl, hrules⟩ := (ladderRules_inOrder hid hval).mpr hladder
  simp only [List.forall_mem_cons] at hr hl
  obtain ⟨r1, r2, r3, r4, r5, -⟩ := hr
  obtain ⟨l1, l2, l3, l4, l5, -⟩ := hl
  have hshared : UnsetOrKnown s.sharedWith := h.sharedWith.imp_right And.left
  refine (accepts_struct hms).mpr ⟨?_, ⟨fit rfl (lists_signals.fits_never.mpr h.id),
    fit rfl (lists_units.fits_never.mpr h.unit_known), fit rfl (fits_int64Ptr h.value),
    fit rfl (fits_int64Ptr r1), fit rfl (fits_int64Ptr r2), fit rfl (fits_int64Ptr r3),
    fit rfl (fits_int64Ptr r4), fit rfl (fits_int64Ptr r5), fit rfl (fits_int64Ptr l1),
    fit rfl (fits_int64Ptr l2), fit rfl (fits_int64Ptr l3), fit rfl (fits_int64Ptr l4),
    fit rfl (fits_int64Ptr l5), fit rfl (fits_int64Ptr h.graceSeconds),
    fit rfl (fits_int64Ptr h.minReclaimBytes), fit rfl (fits_int64Ptr h.windowSeconds),
    fit rfl (fits_int64Ptr h.etaToNextRungSeconds), fit rfl (lists_trends.fits_empty.mpr h.trend),
    fit rfl (lists_resources.fits_empty.mpr h.limitingResource),
    fit rfl (lists_signals.fits_empty.mpr hshared), trivial⟩, ?_⟩
  · simp [hid, hunit]
  · exact List.forall_mem_cons.mpr ⟨holds_unitRule hid hunit, hrules⟩

theorem BudgetSignal.itemKey_inj {s t : BudgetSignal} (ht : t.Valid) :
    itemKey ["id"] (BudgetSignal.goType.encode s) =
      itemKey ["id"] (BudgetSignal.goType.encode t) ↔ s.id = t.id := by
  have hkey (x : BudgetSignal) : itemKey ["id"] (BudgetSignal.goType.encode x) =
      [some (.str (Utf8.runes x.id.text))] := rfl
  rw [hkey, hkey, lists_signals.key_inj ht.id]

/-- The status that publishes an observation. -/
def statusOf (o : NodeBudgetObservation) (writer : Option BudgetWriter) : NodeBudgetStatus where
  observation := o
  writer := writer

theorem value_enum {V : Type} [Vocabulary V] {w : Wire V} (h : Known w) :
    (if Omit.empty.omits enum w then none else some (enum.encode w)) = some (.str w.text) := by
  obtain ⟨v, rfl⟩ := h
  have hne : (word v).text ≠ [] := fun ht => word_ne_default v (congrArg Wire.mk ht)
  have homits : Omit.empty.omits enum (word v) = false := decide_eq_false hne
  rw [homits]
  rfl

/-- The members of a status that its rules read. -/
theorem statusOf_members {o : NodeBudgetObservation} (h : o.Valid) (w : Option BudgetWriter) :
    ∃ ms, NodeBudgetStatus.goType.encode (statusOf o w) = .obj ms ∧
      member? ms (lit "level") = some (.str o.level.text) ∧
      member? ms (lit "platform") = some (.str o.platform.text) ∧
      member? ms (lit "darwin") = o.darwin.map DarwinSignals.goType.encode ∧
      member? ms (lit "linux") = o.linux.map LinuxSignals.goType.encode ∧
      member? ms (lit "policy") = o.policy.map AppliedPolicy.goType.encode ∧
      member? ms (lit "inForce") = o.inForce.map PolicyRef.goType.encode := by
  refine ⟨_, by rw [NodeBudgetStatus.goType, GoType.encode], ?_, ?_, ?_, ?_, ?_, ?_⟩
  all_goals
    rw [member?_encode (by decide)]
    simp only [fieldValue, NodeBudgetObservation.fields, NodeBudgetObservation.equiv, lit_inj,
      String.reduceEq, reduceIte, value_ptr, value_enum h.level, value_enum h.platform,
      Equiv.coe_fn_mk, Option.or_none, statusOf]

/-- The rules on the platform blocks. -/
theorem holds_blockRules {o : NodeBudgetObservation} (h : o.Valid) {ms : List (GoString × Json)}
    (hplatform : member? ms (lit "platform") = some (.str o.platform.text))
    (hdarwin : member? ms (lit "darwin") = o.darwin.map DarwinSignals.goType.encode)
    (hlinux : member? ms (lit "linux") = o.linux.map LinuxSignals.goType.encode) :
    oneBlockRule.holds (.obj ms) = true ∧ platformRule.holds (.obj ms) = true ∧
      blockRule.holds (.obj ms) = true := by
  refine ⟨?_, ?_, ?_⟩
  · rw [oneBlockRule, Cel.holds_or, Cel.holds_ne Cel.eval_has Cel.eval_has, hdarwin, hlinux]
    simpa using Or.inr h.oneBlock
  · rw [platformRule, Cel.holds_or, Cel.holds_has, hplatform]
    exact .inr rfl
  · have hfield : Cel.eval (.obj ms) (.field ["platform"]) =
        some (.str (Utf8.runes o.platform.text)) := by
      rw [Cel.eval_field, hplatform]
      rfl
    have hname : o.platform.text = lit "darwin" ↔ o.platform = word .darwin :=
      ⟨fun ht => congrArg Wire.mk ht, fun ht => ht ▸ rfl⟩
    rw [blockRule, Cel.holds_or, Cel.holds_cond (eval_eq_word hfield (by decide))]
    refine .inr ?_
    by_cases hp : o.platform = word .darwin
    · rw [if_pos (decide_eq_true (hname.mpr hp)), Cel.holds_not_has, hlinux, Option.isNone_map]
      have hone := h.oneBlock
      rw [h.block.mp hp] at hone
      simpa using hone.symm
    · rw [if_neg (by simpa [hname] using hp), Cel.holds_not_has, hdarwin, Option.isNone_map]
      simpa using mt h.block.mpr hp

theorem value_string {s : GoString} :
    (if Omit.empty.omits string s then none else some (string.encode s)) =
      if s = [] then none else some (.str s) := by
  cases s <;> rfl

/-- What the rule on the policy in force reads of a policy. -/
theorem AppliedPolicy.encode_members (p : AppliedPolicy) :
    ∃ ms, AppliedPolicy.goType.encode p = .obj ms ∧
      member? ms (lit "name") = some (.str p.ref.name) ∧
      member? ms (lit "resourceVersion") =
        (if p.ref.resourceVersion = [] then none else some (.str p.ref.resourceVersion)) ∧
      member? ms (lit "outcome") = some (.str p.outcome.text) := by
  refine ⟨_, by rw [AppliedPolicy.goType, GoType.encode], ?_, ?_, ?_⟩
  all_goals rw [member?_encode (by decide)]
  · rfl
  · simp only [fieldValue, PolicyRef.fields, PolicyRef.equiv, lit_inj, String.reduceEq, reduceIte,
      Equiv.coe_fn_mk, Option.or_none, value_string]
  · rfl

theorem PolicyRef.encode_members (r : PolicyRef) :
    ∃ ms, PolicyRef.goType.encode r = .obj ms ∧
      member? ms (lit "name") = some (.str r.name) ∧
      member? ms (lit "resourceVersion") =
        (if r.resourceVersion = [] then none else some (.str r.resourceVersion)) := by
  refine ⟨_, by rw [PolicyRef.goType, GoType.encode], ?_, ?_⟩
  all_goals rw [member?_encode (by decide)]
  · rfl
  · simp only [fieldValue, PolicyRef.fields, PolicyRef.equiv, lit_inj, String.reduceEq, reduceIte,
      Equiv.coe_fn_mk, value_string]

theorem holds_inForceRule {o : NodeBudgetObservation} (h : o.Valid) {ms : List (GoString × Json)}
    (hpolicy : member? ms (lit "policy") = o.policy.map AppliedPolicy.goType.encode)
    (hinForce : member? ms (lit "inForce") = o.inForce.map PolicyRef.goType.encode) :
    inForceRule.holds (.obj ms) = true := by
  rw [inForceRule, Cel.holds_or, Cel.holds_or, Cel.holds_not_has, hpolicy, Option.isNone_map]
  cases hp : o.policy with
  | none => exact .inl (.inl rfl)
  | some p =>
    obtain ⟨pms, hpms, hname, hversion, houtcome⟩ := p.encode_members
    rw [hp, Option.map_some, hpms] at hpolicy
    rcases h.policyInForce p hp with hrejected | hforce
    · refine .inl (.inr ?_)
      rw [Cel.holds_of_eval (eval_eq_word (Cel.eval_field_member hpolicy houtcome) (by decide)),
        hrejected]
      rfl
    · -- the reference in force is the policy's own, field by field
      obtain ⟨rms, hrms, hrname, hrversion⟩ := p.ref.encode_members
      rw [hforce, Option.map_some, hrms] at hinForce
      refine .inr (Cel.holds_and.mpr ⟨Cel.holds_and.mpr ⟨?_, ?_⟩, ?_⟩)
      · rw [Cel.holds_has, hinForce, Option.isSome_some]
      · rw [Cel.holds_eq (Cel.eval_field_member hinForce hrname)
          (Cel.eval_field_member hpolicy hname)]
      · rw [Cel.holds_cond (Cel.eval_has_member hinForce _), hrversion]
        by_cases hv : p.ref.resourceVersion = []
        · rw [if_pos hv] at hversion ⊢
          rw [Option.isSome_none, if_neg Bool.false_ne_true,
            Cel.holds_not (Cel.eval_has_member hpolicy _), hversion]
          rfl
        · rw [if_neg hv] at hversion hrversion ⊢
          rw [Option.isSome_some, if_pos rfl, Cel.holds_and]
          refine ⟨?_, ?_⟩
          · rw [Cel.holds_iff, Cel.eval_has_member hpolicy, hversion, Option.isSome_some]
          · rw [Cel.holds_eq (Cel.eval_field_member hinForce hrversion)
              (Cel.eval_field_member hpolicy hversion)]

/-- A status of a valid observation is refused for its timestamps only. -/
theorem statusOf_accepted_iff {o : NodeBudgetObservation} (h : o.Valid) {w : Option BudgetWriter}
    (hw : ∀ x ∈ w, Known x.shape) :
    NodeBudgetStatus.schema.accepts (NodeBudgetStatus.goType.encode (statusOf o w)) = true ↔
      ∀ t ∈ o.times, FourDigitYear t := by
  obtain ⟨ms, hms, hlevel, hplatform, hdarwin, hlinux, hpolicy, hinForce⟩ := statusOf_members h w
  have hrules : ∀ r ∈ [oneBlockRule, platformRule, blockRule, inForceRule],
      r.holds (.obj ms) = true := by
    obtain ⟨h1, h2, h3⟩ := holds_blockRules h hplatform hdarwin hlinux
    simp [h1, h2, h3, holds_inForceRule h hpolicy hinForce]
  have htimes : (∀ t ∈ o.times, FourDigitYear t) ↔ FourDigitYear o.observedAt ∧
      (∀ t ∈ o.evictDeadline, FourDigitYear t) ∧ ∀ k ∈ o.wouldKill, FourDigitYear k.at_ := by
    simp only [NodeBudgetObservation.times, List.forall_mem_cons, List.forall_mem_append,
      Option.mem_toList, List.forall_mem_map]
    rfl
  have hobserved : FieldFits .zero time dateTime o.observedAt ↔ FourDigitYear o.observedAt := by
    have hzero : ¬time.isZero o.observedAt = true := Bool.eq_false_iff.mp h.observedAt
    rw [fits_zero, or_iff_right hzero, accepts_time h.observedAt]
  have hdeadline : FieldFits .empty (.ptr time) dateTime o.evictDeadline ↔
      ∀ t ∈ o.evictDeadline, FourDigitYear t := by
    rw [fits_ptr]
    exact forall₂_congr fun t ht => accepts_time (h.evictDeadline t ht)
  have hkill : FieldFits .empty (.ptr WouldKill.goType) WouldKill.schema o.wouldKill ↔
      ∀ k ∈ o.wouldKill, FourDigitYear k.at_ := by
    rw [fits_ptr]
    exact forall₂_congr fun k hk => (h.wouldKill k hk).accepted_iff
  rw [NodeBudgetStatus.schema, NodeBudgetStatus.goType, accepts_struct hms, and_iff_left hrules,
    and_iff_right (fun _ hr => absurd hr List.not_mem_nil), htimes, ← hobserved, ← hdeadline,
    ← hkill]
  constructor
  · rintro ⟨⟨hat, -, -, -, -, -, hend, -, -, -, -, hwould, -⟩, -⟩
    exact ⟨hat dateTime rfl, hend dateTime rfl, hwould WouldKill.schema rfl⟩
  · rintro ⟨hat, hend, hwould⟩
    have hsignals := (listMap_accepts fun s _ t ht =>
      BudgetSignal.itemKey_inj (s := s) (h.signals t ht)).mpr h.signalsDistinct
    have hcounters := (listMap_accepts fun c _ d hd =>
      BandCounters.itemKey_inj (c := c) (h.counters d hd)).mpr h.countersDistinct
    exact ⟨⟨fit rfl hat, fit rfl (fits_int64 h.producerGeneration),
        fit rfl (lists_platforms.fits_empty.mpr (.inr h.platform)),
        fit rfl (lists_levels.fits_empty.mpr (.inr h.level)), fit rfl fits_bool,
        fit rfl (lists_signals.fits_empty.mpr h.admitReasonSignal), fit rfl hend,
        fit rfl (.inr h.capacity.accepted),
        fit rfl (fits_slice.mpr ⟨h.signalCount, hsignals, fun s hs => (h.signals s hs).accepted⟩),
        fit rfl (.inr (BudgetRecommendation.accepted h.safeAdditionalBytes h.basis)),
        fit rfl (.inr h.killMode.accepted), fit rfl hwould,
        fit rfl (fits_slice.mpr
          ⟨h.counterCount, hcounters, fun c hc => (h.counters c hc).accepted⟩),
        fit rfl (fits_ptr.mpr fun p hp => (h.policy p hp).accepted),
        fit rfl (fits_ptr.mpr fun r hr => (h.inForce r hr).accepted),
        fit rfl (fits_ptr.mpr fun d hd => (h.darwin d hd).accepted),
        fit rfl (fits_ptr.mpr fun l hl => (h.linux l hl).accepted), trivial⟩,
      fit rfl (fits_ptr.mpr fun x hx => BudgetWriter.accepted (hw x hx)),
      fit rfl (.inl rfl), trivial⟩

/-- The API server admits what the relay validates, as long as the timestamps can be written:
every valid observation with times in the years 1 to 9999 is accepted, and of the reports
that parse exactly those whose times have a year of four digits in UTC. -/
theorem status_admitted_iff (w : Option BudgetWriter) (hw : ∀ x ∈ w, x.shape.valid = true) :
    (∀ o : NodeBudgetObservation, o.Validate = .ok () →
      (∀ t ∈ o.times, Rfc3339.InYears t.sec.toInt) →
      NodeBudgetStatus.schema.accepts (NodeBudgetStatus.goType.encode (statusOf o w)) = true) ∧
    (∀ (value : GoString) (r : NodeBudgetReport), parseNodeBudgetReport value = .ok r →
      (NodeBudgetStatus.schema.accepts
          (NodeBudgetStatus.goType.encode (statusOf r.observation w)) = true ↔
        ∀ t ∈ r.observation.times, FourDigitYear t)) := by
  have hknown : ∀ x ∈ w, Known x.shape := fun x hx => Wire.valid_iff.mp (hw x hx)
  refine ⟨fun o hvalid hyears => ?_, fun value r hparse => ?_⟩
  · rw [statusOf_accepted_iff (NodeBudgetObservation.Validate_ok.mp hvalid) hknown]
    intro t ht
    obtain ⟨hlo, hhi⟩ := Rfc3339.year_of_inYears (hyears t ht)
    exact ⟨by omega, hhi⟩
  · refine statusOf_accepted_iff ?_ hknown
    obtain ⟨d, -, hrest⟩ := except_bind_ok.mp hparse
    obtain ⟨hvalid, hr⟩ := Check.bind_ok.mp hrest
    obtain rfl := Except.ok.inj hr
    exact (NodeBudgetReport.validate_ok.mp hvalid).2

/-- The writer of a relayed status. -/
def relayWriter : BudgetWriter where
  shape := word .annotationRelay

theorem status_admitted_iff_loaded :
    NodeBudgetStatus.schema.accepts (NodeBudgetStatus.goType.encode
        (statusOf loadedReport.observation (some relayWriter))) = true ∧
      NodeBudgetStatus.schema.accepts (NodeBudgetStatus.goType.encode
        (statusOf loadedRead.observation (some relayWriter))) = true := by
  have hvalid : loadedReport.observation.Validate = .ok () := by decide +kernel
  have hparse : parseNodeBudgetReport loadedText = .ok loadedRead := by decide +kernel
  obtain ⟨hadmits, hparsed⟩ := status_admitted_iff (some relayWriter) (by decide)
  exact ⟨hadmits _ hvalid (by decide), (hparsed _ _ hparse).mpr (by decide +kernel)⟩

/-- A report taken an hour west of Greenwich, at the last second of the year 9999. -/
def lastSecond : GoString :=
  lit ("\x7b\"schema\":1,\"observedAt\":\"9999-12-31T23:59:59-01:00\"," ++
    "\"platform\":\"linux\",\"level\":\"ok\",\"linux\":\x7b\x7d\x7d")

/-- What is read of it: in UTC the year 10000 has begun. -/
def lastSecondReport : NodeBudgetReport where
  schema := 1
  observation := {
    observedAt := .ofUnixLocal 253402304399
    platform := word .linux
    level := word .ok
    linux := some {} }

/-- The relay takes the report and the API server refuses its status. -/
theorem status_refused_lastSecond :
    parseNodeBudgetReport lastSecond = .ok lastSecondReport ∧
      NodeBudgetStatus.schema.accepts (NodeBudgetStatus.goType.encode
        (statusOf lastSecondReport.observation (some relayWriter))) = false := by
  refine ⟨by decide +kernel, ?_⟩
  decide +kernel

end K3smApis.Budget
