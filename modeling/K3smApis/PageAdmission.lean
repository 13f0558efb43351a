import K3smApis.PageRoundTrip
import K3smApis.PageWriter
import K3smApis.ReportRoundTrip

/-!
# Every valid observation fits the page

`EncodePage` checks a snapshot on its own: each row of the layout has a getter that says
whether the row can carry the value. Two validators written apart have to agree here, so
that a report the relay accepts is never missing from the page.
-/
namespace K3smApis.Budget
open Check

theorem i64Word_of_nonNeg {v : Option Int64} (h : NonNeg v) : (i64Word v).2 = true := by
  cases v with
  | none => rfl
  | some n =>
    refine decide_eq_true fun heq => ?_
    have hn : 0 ≤ n.toInt := h n rfl
    have habsent : pageAbsent.toInt = -2 ^ 63 := by decide
    rw [heq, habsent] at hn
    omega

theorem nonNeg_of_permille {v : Option Int64} (h : Permille v) : NonNeg v :=
  fun n hn => (h n hn).1

/-- A value behind a pointer is not negative when it is not wherever the pointer is set. -/
theorem nonNeg_bind {α : Type} {block : Option α} {get : α → Option Int64}
    (h : ∀ a ∈ block, NonNeg (get a)) : NonNeg (block.bind get) := by
  cases block with
  | none => exact fun _ hn => by cases hn
  | some a => exact h a rfl

/-- A code table with a code for every word that is not written as 0. -/
def Coded {V : Type} [Vocabulary V] (table : List (Wire V)) (unknown : Wire V) : Prop :=
  ∀ v ∈ (Vocabulary.words : List V), word v ∈ table ∨ unknown ≠ default ∧ word v = unknown

instance {V : Type} [Vocabulary V] (table : List (Wire V)) (unknown : Wire V) :
    Decidable (Coded table unknown) := List.decidableBAll _ _

theorem pageCode_of_unsetOrKnown {V : Type} [Vocabulary V] {table : List (Wire V)}
    {unknown w : Wire V} (htable : Coded table unknown) (h : UnsetOrKnown w) :
    (pageCode table w unknown).2 = true := by
  unfold pageCode
  split_ifs with hzero
  · rfl
  · obtain ⟨v, rfl⟩ := h.resolve_left fun hunset => hzero (.inl hunset)
    have hmem := (htable v (Vocabulary.complete v)).resolve_right fun h => hzero (.inr h)
    cases hfind : table.findIdx? (· = word v) with
    | some i => rfl
    | none =>
      have := List.findIdx?_eq_none_iff.mp hfind _ hmem
      simp at this

/-- A word of a table without an "unknown" is not written as 0. -/
theorem pageCode_ne_zero {V : Type} [Vocabulary V] {table : List (Wire V)} {w : Wire V}
    (htable : ∀ v ∈ (Vocabulary.words : List V), (pageCode table (word v) default).1 ≠ 0)
    (h : Known w) : (pageCode table w default).1 ≠ 0 := by
  obtain ⟨v, rfl⟩ := h
  exact htable v (Vocabulary.complete v)

theorem pageCodeOf_ne_zero {s : Wire SignalID} (h : Known s) : pageCodeOf s ≠ 0 :=
  of_decide_eq_true (signalValid_iff.mpr h)

theorem signalRefWord_of_unsetOrKnown {s : Wire SignalID} (h : UnsetOrKnown s) :
    (signalRefWord s).2 = true :=
  decide_eq_true (h.imp_right pageCodeOf_ne_zero)

theorem slotWord_of_mem {α : Type} {get : α → UInt64 × Bool} {l : List α} {i : ℕ}
    (h : ∀ a ∈ l, (get a).2 = true) : (slotWord get l[i]?).2 = true := by
  cases hi : l[i]? with
  | none => rfl
  | some a => exact h a (List.mem_of_getElem? hi)

/-- A slot array that was copied element by element. -/
theorem slotWord_appended {α : Type} {get : α → UInt64 × Bool} {l : List α} {i : ℕ}
    (h : ∀ a ∈ l, (get a).2 = true) : (slotWord get (appended l).list[i]?).2 = true := by
  rw [appended_list]
  exact slotWord_of_mem h

theorem BudgetCapacity.Valid.nonNeg {c : BudgetCapacity} (h : c.Valid) (f : CapacityField) :
    NonNeg (f.get c) := by
  cases f with
  | cpuCapacityMilli => exact h.cpuCapacityMilli
  | cpuSystemReserveMilli => exact h.cpuSystemReserveMilli
  | memCapacityBytes => exact h.memCapacityBytes
  | memSystemReserveBytes => exact h.memSystemReserveBytes
  | memEvictionReserveBytes => exact h.memEvictionReserveBytes
  | memAllocatableBytes => exact h.memAllocatableBytes
  | swapTotalBytes => exact h.swapTotalBytes
  | swapUsedBytes => exact h.swapUsedBytes
  | cpuPerformanceCores => exact h.cpuPerformanceCores
  | cpuEfficiencyCores => exact h.cpuEfficiencyCores
  | gpuCount => exact h.gpuCount

theorem DarwinSignals.Valid.nonNeg {d : DarwinSignals} (h : d.Valid) (f : DarwinField) :
    NonNeg (f.get d) := by
  cases f with
  | vmPressureLevel => exact h.vmPressureLevel
  | memorystatusLevelPermille => exact nonNeg_of_permille h.memorystatusLevelPermille
  | swapinsTotal => exact h.swapinsTotal
  | swapoutsTotal => exact h.swapoutsTotal

theorem DarwinSignals.Valid.compressor_nonNeg {d : DarwinSignals} (h : d.Valid)
    (f : CompressorField) : NonNeg (d.compressor.bind f.get) := by
  refine nonNeg_bind fun c hc => ?_
  obtain ⟨hused, hstored, hlimit⟩ := h.compressor c hc
  cases f with
  | bytesUsed => exact hused
  | bytesStored => exact hstored
  | segmentLimitBytes => exact hlimit

theorem PSILine.Valid.nonNeg {l : PSILine} (h : l.Valid) (v : PSIValue) : NonNeg (v.get l) := by
  cases v with
  | avg10Permille => exact nonNeg_of_permille h.avg10Permille
  | avg60Permille => exact nonNeg_of_permille h.avg60Permille
  | totalUs => exact h.totalUs

theorem PSIResource.Valid.line {r : PSIResource} (h : r.Valid) (name : PSILineName) :
    ∀ l ∈ name.get r, l.Valid := by
  cases name with
  | some_ => exact h.1
  | full => exact h.2

theorem LinuxPSI.Valid.resource {p : LinuxPSI} (h : p.Valid) (name : PSIResourceName) :
    ∀ r ∈ name.get p, r.Valid := by
  cases name with
  | cpu => exact h.1
  | memory => exact h.2.1
  | io => exact h.2.2

theorem LinuxMemoryEvents.Valid.nonNeg {e : LinuxMemoryEvents} (h : e.Valid) (f : MemoryEvent) :
    NonNeg (f.get e) := by
  cases f with
  | high => exact h.high
  | max => exact h.max
  | oom => exact h.oom
  | oomKill => exact h.oomKill

/-- Every value of a signal slot: the five checked by name, and the rungs and releases the
ladder check looks at. -/
theorem BudgetSignal.Valid.nonNeg {g : BudgetSignal} (h : g.Valid) (v : SignalValue) :
    NonNeg (v.get g) := by
  have hrung : ∀ r ∈ g.rungs, NonNeg r := h.ladder.rungs_nonneg
  have hrelease : ∀ r ∈ g.releases, NonNeg r := h.ladder.releases_nonneg
  cases v with
  | value => exact h.value
  | graceSeconds => exact h.graceSeconds
  | minReclaimBytes => exact h.minReclaimBytes
  | windowSeconds => exact h.windowSeconds
  | etaToNextRungSeconds => exact h.etaToNextRungSeconds
  | warnThreshold | admitStopThreshold | criticalThreshold | evictSoftThreshold
  | evictHardThreshold => exact hrung _ (by simp [BudgetSignal.rungs, SignalValue.get])
  | warnRelease | admitStopRelease | criticalRelease | evictSoftRelease
  | evictHardRelease => exact hrelease _ (by simp [BudgetSignal.releases, SignalValue.get])

theorem BandCounters.Valid.nonneg {c : BandCounters} (h : c.Valid) (t : CounterTotal) :
    0 ≤ t.get c.forPage := by
  have htotals := h.totals
  simp only [BandCounters.totals, List.forall_mem_cons, List.not_mem_nil, IsEmpty.forall_iff,
    implies_true, and_true] at htotals
  obtain ⟨hevictions, hoom, hkernel, hrestarts, hhigh, hrefused⟩ := htotals
  have hzero : (0 : Int64).toInt = 0 := by decide
  rw [Int64.le_iff_toInt_le, hzero]
  cases t with
  | evictionsTotal => exact hevictions
  | oomKillsTotal => exact hoom
  | kernelKillsTotal => exact hkernel
  | restartsTotal => exact hrestarts
  | memHighEventsTotal => exact hhigh
  | tier1RefusedTotal => exact hrefused

section Snapshot

variable {o : NodeBudgetObservation} (h : o.Valid) (nodeName : GoString) (period : Int64)
include h

/-- Every row of the layout carries the value a valid observation gives it. -/
theorem NodeBudgetObservation.Valid.carries (n : PageFieldName) :
    (pageFieldSpec n).carries (newPageSnapshot nodeName period o) = true := by
  cases n with
  | magic | abiMajor | abiMinor | headerSize | bodySize | seq | notifyEpoch | generation
  | writerPeriodSeconds | nodeNameLen | nodeName | admits | killModeArmed => rfl
  | observedAt => exact (Bool.not_eq_true' _).mpr h.observedAt
  | platform => exact pageCode_of_unsetOrKnown (by decide) (.inr h.platform)
  | capacity c => exact i64Word_of_nonNeg (h.capacity.nonNeg c)
  | gpuPresent =>
    simp only [PageField.carries, pageFieldSpec, newPageSnapshot]
    cases o.capacity.gpuPresent <;> rfl
  | level => exact pageCode_of_unsetOrKnown (by decide) (.inr h.level)
  | darwin d => exact i64Word_of_nonNeg (nonNeg_bind fun b hb => (h.darwin b hb).nonNeg d)
  | compressor c =>
    refine i64Word_of_nonNeg ?_
    show NonNeg ((o.darwin.bind (·.compressor)).bind c.get)
    rw [Option.bind_assoc]
    exact nonNeg_bind fun b hb => (h.darwin b hb).compressor_nonNeg c
  | psi r l v =>
    refine i64Word_of_nonNeg ?_
    show NonNeg ((((o.linux.bind (·.psi)).bind r.get).bind l.get).bind v.get)
    rw [Option.bind_assoc, Option.bind_assoc, Option.bind_assoc]
    refine nonNeg_bind fun b hb => nonNeg_bind fun p hp => nonNeg_bind fun q hq => ?_
    exact nonNeg_bind fun line hline =>
      (((h.linux b hb).1 p hp).resource r q hq).line l line hline |>.nonNeg v
  | memoryEvents e =>
    refine i64Word_of_nonNeg ?_
    show NonNeg ((o.linux.bind (·.memoryEvents)).bind e.get)
    rw [Option.bind_assoc]
    exact nonNeg_bind fun b hb => nonNeg_bind fun m hm => ((h.linux b hb).2 m hm).nonNeg e
  | signalId i =>
    exact slotWord_appended fun g hg => decide_eq_true (pageCodeOf_ne_zero (h.signals g hg).id)
  | signalUnit i =>
    refine slotWord_appended fun g hg => ?_
    have hknown := (h.signals g hg).unit_known
    refine (Bool.and_eq_true _ _).mpr ⟨(Bool.and_eq_true _ _).mpr ⟨?_, ?_⟩, ?_⟩
    · exact pageCode_of_unsetOrKnown (by decide) (.inr hknown)
    · exact decide_eq_true (pageCode_ne_zero (by decide) hknown)
    · exact decide_eq_true (h.signals g hg).unit
  | signal i v => exact slotWord_appended fun g hg => i64Word_of_nonNeg ((h.signals g hg).nonNeg v)
  | signalTrend i =>
    exact slotWord_appended fun g hg => pageCode_of_unsetOrKnown (by decide) (h.signals g hg).trend
  | signalLimitingResource i =>
    exact slotWord_appended fun g hg =>
      pageCode_of_unsetOrKnown (by decide) (h.signals g hg).limitingResource
  | signalSharedWith i =>
    exact slotWord_appended fun g hg =>
      signalRefWord_of_unsetOrKnown ((h.signals g hg).sharedWith.imp_right And.left)
  | admitReasonSignal => exact signalRefWord_of_unsetOrKnown h.admitReasonSignal
  | evictDeadline =>
    simp only [PageField.carries, pageFieldSpec, newPageSnapshot]
    cases hd : o.evictDeadline with
    | none => rfl
    | some t => exact (Bool.not_eq_true' _).mpr (h.evictDeadline t hd)
  | killModeMode => exact pageCode_of_unsetOrKnown (by decide) h.killMode.mode_known
  | killModeArmingEpisodes =>
    refine decide_eq_true (Int32.le_iff_toInt_le.mpr ?_)
    exact h.killMode.armingEpisodes
  | killModeReason => exact pageCode_of_unsetOrKnown (by decide) h.killMode.reason
  | safeAdditionalBytes => exact i64Word_of_nonNeg h.safeAdditionalBytes
  | basis => exact signalRefWord_of_unsetOrKnown h.basis
  | counterBand i =>
    refine slotWord_appended (List.forall_mem_map.mpr fun c hc => ?_)
    have hknown := (h.counters c hc).band
    exact (Bool.and_eq_true _ _).mpr ⟨pageCode_of_unsetOrKnown (by decide) (.inr hknown),
      decide_eq_true (pageCode_ne_zero (by decide) hknown)⟩
  | counter i t =>
    exact slotWord_appended (List.forall_mem_map.mpr fun c hc =>
      decide_eq_true ((h.counters c hc).nonneg t))

theorem NodeBudgetObservation.Valid.carried (hname : 1 ≤ nodeName.length)
    (hlen : nodeName.length ≤ maxPageNodeNameBytes) (hperiod : 1 ≤ period.toInt) :
    Carried (newPageSnapshot nodeName period o) where
  nameLength := hlen
  nameNonempty := List.ne_nil_of_length_pos hname
  period := by
    rw [Int64.lt_iff_toInt_lt]
    exact hperiod
  platform := Wire.valid_iff.mpr h.platform
  level := Wire.valid_iff.mpr h.level
  signals := by
    show (appended o.signals.list).list.length ≤ _
    rw [appended_list]
    exact h.signalCount
  counters := by
    show (appended (o.counters.list.map BandCounters.forPage)).list.length ≤ _
    rw [appended_list, List.length_map]
    exact h.counterCount
  darwinBlock hp := Option.isSome_iff_ne_none.mp (h.block.mp hp)
  linuxBlock hp := by
    have hnot : o.darwin.isSome ≠ true := fun hd => by
      have hboth := (h.block.mpr hd).symm.trans hp
      exact absurd hboth (by decide)
    have hlinux : o.linux.isSome = true := by
      have hone := h.oneBlock
      rw [Bool.eq_false_of_not_eq_true hnot] at hone
      exact Bool.eq_true_of_not_eq_false hone.symm
    exact ⟨Option.isSome_iff_ne_none.mp hlinux, Option.not_isSome_iff_eq_none.mp hnot⟩
  fields := h.carries nodeName period

end Snapshot

/-- A writer that has resumed accepts what `EncodePage` accepts. -/
theorem PageWriter.publish_carried {s : PageSnapshot} (h : Carried s) (w : PageWriter)
    (hw : w.resumed = true) (m : PageWords) : ((w.publish s).result m).2 = .ok () := by
  rw [w.result_publish m hw (encodePage_ok.mpr ⟨h, rfl⟩)]

/-- Every valid observation can be published under every node name and period the page has
room for: `EncodePage` returns nil, for a report that was parsed too, and a writer that has
resumed does not refuse it. -/
theorem valid_publishable (nodeName : GoString) (period : Int64)
    (hname : 1 ≤ nodeName.length ∧ nodeName.length ≤ 253) (hperiod : 1 ≤ period.toInt) :
    (∀ o : NodeBudgetObservation, o.validate = .ok () →
      (∀ dst : List UInt8, pageSize ≤ dst.length →
        ∃ out, encodePageInto dst (newPageSnapshot nodeName period o) = .ok out) ∧
      ∀ (w : PageWriter) (m : PageWords), w.resumed = true →
        ((w.publish (newPageSnapshot nodeName period o)).result m).2 = .ok ()) ∧
    (∀ (value : GoString) (r : NodeBudgetReport), parseNodeBudgetReport value = .ok r →
      (∀ dst : List UInt8, pageSize ≤ dst.length →
        ∃ out, encodePageInto dst (newPageSnapshot nodeName period r.observation) = .ok out) ∧
      ∀ (w : PageWriter) (m : PageWords), w.resumed = true →
        ((w.publish (newPageSnapshot nodeName period r.observation)).result m).2 = .ok ()) := by
  have hpublish : ∀ o : NodeBudgetObservation, o.Valid →
      (∀ dst : List UInt8, pageSize ≤ dst.length →
        ∃ out, encodePageInto dst (newPageSnapshot nodeName period o) = .ok out) ∧
      ∀ (w : PageWriter) (m : PageWords), w.resumed = true →
        ((w.publish (newPageSnapshot nodeName period o)).result m).2 = .ok () := by
    intro o ho
    have hcarried := ho.carried nodeName period hname.1 hname.2 hperiod
    refine ⟨fun dst hdst => ?_, fun w m hw => w.publish_carried hcarried hw m⟩
    rw [encodePageInto, if_neg (not_lt.mpr hdst), encodePage_ok.mpr ⟨hcarried, rfl⟩]
    exact ⟨_, rfl⟩
  refine ⟨fun o ho => hpublish o (NodeBudgetObservation.validate_ok.mp ho), fun value r hr => ?_⟩
  obtain ⟨s, -, rfl, hvalid⟩ := parseNodeBudgetReport_ok.mp hr
  exact hpublish _ hvalid

/-- Both reports are published under a name of one byte, once a second. -/
theorem valid_publishable_loaded :
    loadedReport.observation.validate = .ok () ∧ parseNodeBudgetReport loadedText = .ok loadedRead ∧
    (∃ out, encodePageInto (List.replicate pageSize 0)
      (newPageSnapshot (lit "a") 1 loadedReport.observation) = .ok out) ∧
    (∃ out, encodePageInto (List.replicate pageSize 0)
      (newPageSnapshot (lit "a") 1 loadedRead.observation) = .ok out) ∧
    ∀ m : PageWords, ((PageWriter.publish { resumed := true }
      (newPageSnapshot (lit "a") 1 loadedReport.observation)).result m).2 = .ok () ∧
      ((PageWriter.publish { resumed := true }
        (newPageSnapshot (lit "a") 1 loadedRead.observation)).result m).2 = .ok () := by
  have hvalid : loadedReport.observation.validate = .ok () := by decide +kernel
  have hparse : parseNodeBudgetReport loadedText = .ok loadedRead := by decide +kernel
  have hpublish := valid_publishable (lit "a") 1 (by decide) (by decide)
  have hdst : pageSize ≤ (List.replicate pageSize (0 : UInt8)).length := by
    rw [List.length_replicate]
  exact ⟨hvalid, hparse, (hpublish.1 _ hvalid).1 _ hdst, (hpublish.2 _ _ hparse).1 _ hdst,
    fun m => ⟨(hpublish.1 _ hvalid).2 _ m rfl, (hpublish.2 _ _ hparse).2 _ m rfl⟩⟩

end K3smApis.Budget
