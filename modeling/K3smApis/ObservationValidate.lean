import K3smApis.FieldChecks

/-!
# Validation of an observation

The `validate` methods of `nodebudget.go`, check by check and in the order the
source makes them, and for each the facts an accepted value carries.
-/
namespace K3smApis.Budget
open Check

/-- The sentinels a budget error wraps. -/
inductive BudgetSentinel where
  | invalidNodeBudget | invalidNodeBudgetPolicy | unknownBudgetSchema
  | budgetAnnotationInvalid | budgetAnnotationTooLarge
  deriving DecidableEq, Repr

/-- A budget error: what `errors.Is` finds in it, and its detail. -/
structure BudgetError where
  wraps : List BudgetSentinel
  detail : Msg
  deriving DecidableEq, Repr

/-- `fmt.Errorf("%w: %w", sentinel, err)` around a plain check. -/
def wrapped (sentinels : List BudgetSentinel) (c : Check) : Except BudgetError Unit :=
  c.mapError (fun detail => ⟨sentinels, detail⟩)

@[simp] theorem wrapped_ok {sentinels : List BudgetSentinel} {c : Check} :
    wrapped sentinels c = .ok () ↔ c = .ok () := by
  cases c <;> simp [wrapped, Except.mapError]

def BudgetCapacity.validate (c : BudgetCapacity) : Check := do
  allNonNegative
    [("capacity.cpuCapacityMilli", c.cpuCapacityMilli),
      ("capacity.cpuSystemReserveMilli", c.cpuSystemReserveMilli),
      ("capacity.memCapacityBytes", c.memCapacityBytes),
      ("capacity.memSystemReserveBytes", c.memSystemReserveBytes),
      ("capacity.memEvictionReserveBytes", c.memEvictionReserveBytes),
      ("capacity.memAllocatableBytes", c.memAllocatableBytes),
      ("capacity.swapTotalBytes", c.swapTotalBytes),
      ("capacity.swapUsedBytes", c.swapUsedBytes),
      ("capacity.cpuPerformanceCores", c.cpuPerformanceCores),
      ("capacity.cpuEfficiencyCores", c.cpuEfficiencyCores),
      ("capacity.gpuCount", c.gpuCount)]
  match c.gpuPresent, c.gpuCount with
  | some present, some count =>
    refuseIf (present ≠ decide (0 < count))
      [.s "capacity.gpuCount ", .d count.toInt, .s " disagrees with capacity.gpuPresent ",
        .t present]
  | _, _ => .ok ()

def BudgetSignal.validate (s : BudgetSignal) : Check := do
  refuseIf (signalValid s.id = false) [.s "id ", .q s.id.text, .s " is not a known signal"]
  refuseIf (s.unit ≠ unitOf s.id)
    [.str s.id.text, .s ": unit ", .q s.unit.text, .s ", want ", .q (unitOf s.id).text]
  within [.str s.id.text, .s ": "] (allNonNegative
    [("value", s.value), ("graceSeconds", s.graceSeconds),
      ("minReclaimBytes", s.minReclaimBytes), ("windowSeconds", s.windowSeconds),
      ("etaToNextRungSeconds", s.etaToNextRungSeconds)])
  within [.str s.id.text, .s ": "] (checkLadder s.id s.rungs s.releases)
  refuseIf (s.trend ≠ default ∧ s.trend.valid = false)
    [.str s.id.text, .s ": trend ", .q s.trend.text, .s " is not a known trend"]
  refuseIf (s.limitingResource ≠ default ∧ s.limitingResource.valid = false)
    [.str s.id.text, .s ": limitingResource ", .q s.limitingResource.text,
      .s " is not a known resource"]
  refuseIf (s.sharedWith ≠ default ∧ (signalValid s.sharedWith = false ∨ s.sharedWith = s.id))
    [.str s.id.text, .s ": sharedWith ", .q s.sharedWith.text, .s " is not another known signal"]

def KillMode.validate (k : KillMode) : Check :=
  if k = {} then .ok ()
  else do
    refuseIf (k.mode.valid = false)
      [.s "killMode.mode ", .q k.mode.text, .s " is not a known mode"]
    refuseIf (k.armingEpisodes < 0)
      [.s "killMode.armingEpisodes ", .d k.armingEpisodes.toInt, .s " is negative"]
    refuseIf (k.reason ≠ default ∧ k.reason.valid = false)
      [.s "killMode.reason ", .q k.reason.text, .s " is not a known reason"]

def WouldKill.validate (w : WouldKill) : Check := do
  refuseIf (w.band.valid = false) [.s "wouldKill.band ", .q w.band.text, .s " is not a known band"]
  refuseIf (w.reason.valid = false)
    [.s "wouldKill.reason ", .q w.reason.text, .s " is not a known reason"]
  refuseIf (w.at_.isZero = true) [.s "wouldKill.at is not set"]

/-- The monotonic totals with their names, in the order they are checked. -/
def BandCounters.totals (c : BandCounters) : List (String × Int64) :=
  [("evictionsTotal", c.evictionsTotal), ("oomKillsTotal", c.oomKillsTotal),
    ("kernelKillsTotal", c.kernelKillsTotal), ("restartsTotal", c.restartsTotal),
    ("memHighEventsTotal", c.memHighEventsTotal), ("tier1RefusedTotal", c.tier1RefusedTotal)]

def WindowCount.validate (w : WindowCount) : Check := do
  refuseIf (w.window.valid = false ∨ w.reason.valid = false)
    [.s "unknown window ", .q w.window.text, .s " or reason ", .q w.reason.text]
  refuseIf (w.count < 0) [.s "count ", .d w.count.toInt, .s " is negative"]

/-- The key of the repetition test: the count without its number. -/
def WindowCount.key (w : WindowCount) : WindowCount := { w with count := 0 }

def BandCounters.validate (c : BandCounters) : Check := do
  refuseIf (c.band.valid = false) [.s "band ", .q c.band.text, .s " is not a known band"]
  forEach (fun f : String × Int64 => refuseIf (f.2 < 0)
    [.str c.band.text, .s " ", .s f.1, .s " ", .d f.2.toInt, .s " is negative"]) c.totals
  refuseIf (maxWindowCounts < c.windows.list.length)
    [.str c.band.text, .s ": ", .d c.windows.list.length, .s " windowed counts, at most ",
      .d maxWindowCounts]
  forEachDistinct (fun i => [.str c.band.text, .s " windows[", .d i, .s "]: "])
    WindowCount.validate WindowCount.key
    (fun w => [.str w.window.text, .s " ", .str w.reason.text, .s " is repeated"])
    (fun _ => .ok ()) 0 [] c.windows.list

/-- An optional resource version: printable when it is set. -/
def resourceVersionCheck (label : String) (v : GoString) : Check :=
  refuseIf (v ≠ [] ∧ isPrintableASCII v maxPolicyResourceVersionBytes = false)
    [.s label, .s "resourceVersion is not 1..", .d maxPolicyResourceVersionBytes,
      .s " printable ASCII bytes"]

def AppliedPolicy.validate (p : AppliedPolicy) : Check := do
  refuseIf (isObjectName p.ref.name = false)
    [.s "name ", .q p.ref.name, .s " is not an object name"]
  resourceVersionCheck "" p.ref.resourceVersion
  refuseIf (p.outcome.valid = false)
    [.s "outcome ", .q p.outcome.text, .s " is not a known outcome"]
  refuseIf (maxClampedFields < p.clampedFields.list.length)
    [.d p.clampedFields.list.length, .s " clampedFields, at most ", .d maxClampedFields]
  forEachDistinct (fun i => [.s "clampedFields[", .d i, .s "] "])
    (fun f : Wire PolicyField => refuseIf (f.valid = false)
      [.q f.text, .s " is not a known policy field"])
    id (fun f => [.q f.text, .s " is repeated"]) (fun _ => .ok ()) 0 [] p.clampedFields.list

/-- `inForce` is checked where it stands, not by a method of its own. -/
def PolicyRef.validate (r : PolicyRef) : Check := do
  refuseIf (isObjectName r.name = false)
    [.s "inForce.name ", .q r.name, .s " is not an object name"]
  resourceVersionCheck "inForce." r.resourceVersion

def DarwinSignals.validate (d : DarwinSignals) : Check := do
  allNonNegative ([("vmPressureLevel", d.vmPressureLevel),
      ("memorystatusLevelPermille", d.memorystatusLevelPermille),
      ("swapinsTotal", d.swapinsTotal), ("swapoutsTotal", d.swapoutsTotal)] ++
    match d.compressor with
    | some c =>
      [("compressor.bytesUsed", c.bytesUsed), ("compressor.bytesStored", c.bytesStored),
        ("compressor.segmentLimitBytes", c.segmentLimitBytes)]
    | none => [])
  permille "memorystatusLevelPermille" d.memorystatusLevelPermille

/-- `if p != nil { check }`. -/
def checkSome {α : Type} (check : α → Check) : Option α → Check
  | some a => check a
  | none => .ok ()

@[simp] theorem checkSome_ok {α : Type} {check : α → Check} {a : Option α} :
    checkSome check a = .ok () ↔ ∀ x ∈ a, check x = .ok () := by
  cases a <;> simp [checkSome]

/-- One PSI line under its path. -/
def PSILine.validate (path : String) (l : PSILine) : Check := do
  permille (path ++ ".avg10Permille") l.avg10Permille
  permille (path ++ ".avg60Permille") l.avg60Permille
  nonNegative (path ++ ".totalUs") l.totalUs

def PSIResource.validate (path : String) (r : PSIResource) : Check := do
  checkSome (PSILine.validate (path ++ ".some")) r.some_
  checkSome (PSILine.validate (path ++ ".full")) r.full

def LinuxPSI.validate (p : LinuxPSI) : Check := do
  checkSome (PSIResource.validate "psi.cpu") p.cpu
  checkSome (PSIResource.validate "psi.memory") p.memory
  checkSome (PSIResource.validate "psi.io") p.io

def LinuxMemoryEvents.validate (e : LinuxMemoryEvents) : Check :=
  allNonNegative [("memoryEvents.high", e.high), ("memoryEvents.max", e.max),
    ("memoryEvents.oom", e.oom), ("memoryEvents.oomKill", e.oomKill)]

def LinuxSignals.validate (l : LinuxSignals) : Check := do
  checkSome LinuxPSI.validate l.psi
  checkSome LinuxMemoryEvents.validate l.memoryEvents

/-- The unexported `validate` of an observation. -/
def NodeBudgetObservation.validate (o : NodeBudgetObservation) : Check := do
  refuseIf (o.observedAt.isZero = true) [.s "observedAt is not set"]
  refuseIf (o.producerGeneration < 0)
    [.s "producerGeneration ", .d o.producerGeneration.toInt, .s " is negative"]
  refuseIf (o.platform.valid = false)
    [.s "platform ", .q o.platform.text, .s " is not a known platform"]
  refuseIf (o.darwin.isSome = o.linux.isSome)
    [.s "exactly one of darwin and linux must be set"]
  refuseIf (decide (o.platform = word .darwin) ≠ o.darwin.isSome)
    [.s "platform ", .q o.platform.text, .s " does not match the platform block set"]
  refuseIf (o.level.valid = false) [.s "level ", .q o.level.text, .s " is not a known level"]
  refuseIf (o.admitReasonSignal ≠ default ∧ signalValid o.admitReasonSignal = false)
    [.s "admitReasonSignal ", .q o.admitReasonSignal.text, .s " is not a known signal"]
  refuseIf (o.admitReasonSignal ≠ default ∧ o.admits = true)
    [.s "admitReasonSignal is set while admit is true"]
  checkSome (fun t : Time => refuseIf (t.isZero = true) [.s "evictDeadline is set but zero"])
    o.evictDeadline
  o.capacity.validate
  refuseIf (maxBudgetSignals < o.signals.list.length)
    [.d o.signals.list.length, .s " signals, at most ", .d maxBudgetSignals]
  forEachDistinct (fun i => [.s "signals[", .d i, .s "]: "])
    BudgetSignal.validate BudgetSignal.id (fun s => [.str s.id.text, .s " is repeated"])
    (fun _ => .ok ()) 0 [] o.signals.list
  nonNegative "recommendation.safeAdditionalBytes" o.recommendation.safeAdditionalBytes
  refuseIf (o.recommendation.basis ≠ default ∧ signalValid o.recommendation.basis = false)
    [.s "recommendation.basis ", .q o.recommendation.basis.text, .s " is not a known signal"]
  o.killMode.validate
  checkSome WouldKill.validate o.wouldKill
  refuseIf (bands.length < o.counters.list.length)
    [.d o.counters.list.length, .s " counter entries, at most ", .d bands.length]
  forEachDistinct (fun i => [.s "counters[", .d i, .s "]: "])
    BandCounters.validate BandCounters.band
    (fun c => [.s "band ", .str c.band.text, .s " is repeated"])
    (fun _ => .ok ()) 0 [] o.counters.list
  checkSome (fun p => within [.s "policy: "] (AppliedPolicy.validate p)) o.policy
  checkSome PolicyRef.validate o.inForce
  -- a policy that was not rejected is the one in force
  checkSome (fun p : AppliedPolicy =>
    refuseIf (p.outcome ≠ word .rejected ∧ o.inForce ≠ some p.ref)
      [.s "policy ", .str p.ref.name, .s " was ", .str p.outcome.text,
        .s ", so inForce must name the same name and resourceVersion"]) o.policy
  checkSome (fun d => within [.s "darwin: "] (DarwinSignals.validate d)) o.darwin
  checkSome (fun l => within [.s "linux: "] (LinuxSignals.validate l)) o.linux

/-- `NodeBudgetObservation.Validate`. -/
def NodeBudgetObservation.Validate (o : NodeBudgetObservation) : Except BudgetError Unit :=
  wrapped [.invalidNodeBudget] o.validate

/-- A set value that is not negative. -/
def NonNeg (v : Option Int64) : Prop := ∀ n ∈ v, 0 ≤ n.toInt

/-- A set value within 0..1000. -/
def Permille (v : Option Int64) : Prop := ∀ n ∈ v, 0 ≤ n.toInt ∧ n.toInt ≤ 1000

/-- A word of the vocabulary. -/
def Known {V : Type} [Vocabulary V] (w : Wire V) : Prop := ∃ v : V, w = word v

/-- Unset, or a word of the vocabulary. -/
def UnsetOrKnown {V : Type} [Vocabulary V] (w : Wire V) : Prop := w = default ∨ Known w

/-- What `BudgetCapacity.validate` establishes. -/
structure BudgetCapacity.Valid (c : BudgetCapacity) : Prop where
  cpuCapacityMilli : NonNeg c.cpuCapacityMilli
  cpuSystemReserveMilli : NonNeg c.cpuSystemReserveMilli
  memCapacityBytes : NonNeg c.memCapacityBytes
  memSystemReserveBytes : NonNeg c.memSystemReserveBytes
  memEvictionReserveBytes : NonNeg c.memEvictionReserveBytes
  memAllocatableBytes : NonNeg c.memAllocatableBytes
  swapTotalBytes : NonNeg c.swapTotalBytes
  swapUsedBytes : NonNeg c.swapUsedBytes
  cpuPerformanceCores : NonNeg c.cpuPerformanceCores
  cpuEfficiencyCores : NonNeg c.cpuEfficiencyCores
  gpuCount : NonNeg c.gpuCount
  gpuAgrees : ∀ present ∈ c.gpuPresent, ∀ count ∈ c.gpuCount, present = decide (0 < count)

/-- What `BudgetSignal.validate` establishes. -/
structure BudgetSignal.Valid (s : BudgetSignal) : Prop where
  id : Known s.id
  unit : s.unit = unitOf s.id
  value : NonNeg s.value
  graceSeconds : NonNeg s.graceSeconds
  minReclaimBytes : NonNeg s.minReclaimBytes
  windowSeconds : NonNeg s.windowSeconds
  etaToNextRungSeconds : NonNeg s.etaToNextRungSeconds
  ladder : LadderInOrder s.id s.rungs s.releases
  trend : UnsetOrKnown s.trend
  limitingResource : UnsetOrKnown s.limitingResource
  sharedWith : s.sharedWith = default ∨ Known s.sharedWith ∧ s.sharedWith ≠ s.id

/-- What `KillMode.validate` establishes. -/
structure KillMode.Valid (k : KillMode) : Prop where
  mode : k ≠ {} → Known k.mode
  armingEpisodes : 0 ≤ k.armingEpisodes.toInt
  reason : UnsetOrKnown k.reason

theorem BudgetSignal.Valid.unit_known {s : BudgetSignal} (h : s.Valid) : Known s.unit := by
  obtain ⟨v, hv⟩ := h.id
  rw [h.unit, hv]
  exact unitOf_word v

theorem KillMode.Valid.mode_known {k : KillMode} (h : k.Valid) : UnsetOrKnown k.mode := by
  by_cases hk : k = {}
  · exact .inl (by rw [hk])
  · exact .inr (h.mode hk)

structure WouldKill.Valid (w : WouldKill) : Prop where
  band : Known w.band
  reason : Known w.reason
  set : w.at_.isZero = false

structure WindowCount.Valid (w : WindowCount) : Prop where
  window : Known w.window
  reason : Known w.reason
  count : 0 ≤ w.count.toInt

structure BandCounters.Valid (c : BandCounters) : Prop where
  band : Known c.band
  totals : ∀ f ∈ c.totals, 0 ≤ f.2.toInt
  length : c.windows.list.length ≤ maxWindowCounts
  windows : ∀ w ∈ c.windows.list, w.Valid
  distinct : (c.windows.list.map WindowCount.key).Nodup

/-- A policy name and version the validators accept. -/
structure PolicyRef.Valid (r : PolicyRef) : Prop where
  name : isObjectName r.name = true
  version : r.resourceVersion = [] ∨
    isPrintableASCII r.resourceVersion maxPolicyResourceVersionBytes = true

structure AppliedPolicy.Valid (p : AppliedPolicy) : Prop where
  ref : p.ref.Valid
  outcome : Known p.outcome
  length : p.clampedFields.list.length ≤ maxClampedFields
  fields : ∀ f ∈ p.clampedFields.list, Known f
  distinct : p.clampedFields.list.Nodup

structure DarwinSignals.Valid (d : DarwinSignals) : Prop where
  vmPressureLevel : NonNeg d.vmPressureLevel
  memorystatusLevelPermille : Permille d.memorystatusLevelPermille
  swapinsTotal : NonNeg d.swapinsTotal
  swapoutsTotal : NonNeg d.swapoutsTotal
  compressor : ∀ c ∈ d.compressor,
    NonNeg c.bytesUsed ∧ NonNeg c.bytesStored ∧ NonNeg c.segmentLimitBytes

structure PSILine.Valid (l : PSILine) : Prop where
  avg10Permille : Permille l.avg10Permille
  avg60Permille : Permille l.avg60Permille
  totalUs : NonNeg l.totalUs

def PSIResource.Valid (r : PSIResource) : Prop :=
  (∀ l ∈ r.some_, l.Valid) ∧ ∀ l ∈ r.full, l.Valid

def LinuxPSI.Valid (p : LinuxPSI) : Prop :=
  (∀ r ∈ p.cpu, r.Valid) ∧ (∀ r ∈ p.memory, r.Valid) ∧ ∀ r ∈ p.io, r.Valid

structure LinuxMemoryEvents.Valid (e : LinuxMemoryEvents) : Prop where
  high : NonNeg e.high
  max : NonNeg e.max
  oom : NonNeg e.oom
  oomKill : NonNeg e.oomKill

def LinuxSignals.Valid (l : LinuxSignals) : Prop :=
  (∀ p ∈ l.psi, p.Valid) ∧ ∀ e ∈ l.memoryEvents, e.Valid

/-- What `NodeBudgetObservation.validate` establishes. -/
structure NodeBudgetObservation.Valid (o : NodeBudgetObservation) : Prop where
  observedAt : o.observedAt.isZero = false
  producerGeneration : 0 ≤ o.producerGeneration.toInt
  platform : Known o.platform
  oneBlock : o.darwin.isSome ≠ o.linux.isSome
  block : (o.platform = word .darwin) ↔ o.darwin.isSome = true
  level : Known o.level
  admitReasonSignal : UnsetOrKnown o.admitReasonSignal
  admitReasonOnly : o.admitReasonSignal ≠ default → o.admits = false
  evictDeadline : ∀ t ∈ o.evictDeadline, t.isZero = false
  capacity : o.capacity.Valid
  signalCount : o.signals.list.length ≤ maxBudgetSignals
  signals : ∀ s ∈ o.signals.list, s.Valid
  signalsDistinct : (o.signals.list.map BudgetSignal.id).Nodup
  safeAdditionalBytes : NonNeg o.recommendation.safeAdditionalBytes
  basis : UnsetOrKnown o.recommendation.basis
  killMode : o.killMode.Valid
  wouldKill : ∀ w ∈ o.wouldKill, w.Valid
  counterCount : o.counters.list.length ≤ bands.length
  counters : ∀ c ∈ o.counters.list, c.Valid
  countersDistinct : (o.counters.list.map BandCounters.band).Nodup
  policy : ∀ p ∈ o.policy, p.Valid
  inForce : ∀ r ∈ o.inForce, r.Valid
  policyInForce : ∀ p ∈ o.policy, p.outcome = word .rejected ∨ o.inForce = some p.ref
  darwin : ∀ d ∈ o.darwin, d.Valid
  linux : ∀ l ∈ o.linux, l.Valid

theorem known_iff {V : Type} [Vocabulary V] {w : Wire V} : ¬w.valid = false ↔ Known w := by
  rw [Bool.not_eq_false, Wire.valid_iff, Known]

theorem known_signal_iff {w : Wire SignalID} : ¬signalValid w = false ↔ Known w := by
  rw [Bool.not_eq_false, signalValid_iff, Known]

theorem unsetOrKnown_iff {V : Type} [Vocabulary V] {w : Wire V} :
    ¬(w ≠ default ∧ w.valid = false) ↔ UnsetOrKnown w := by
  rw [not_and_or, not_not, Bool.not_eq_false, Wire.valid_iff, UnsetOrKnown, Known]

theorem unsetOrKnown_signal_iff {w : Wire SignalID} :
    ¬(w ≠ default ∧ signalValid w = false) ↔ UnsetOrKnown w := by
  rw [not_and_or, not_not, Bool.not_eq_false, signalValid_iff, UnsetOrKnown, Known]

theorem nonNegative_nonNeg {name : String} {v : Option Int64} :
    nonNegative name v = .ok () ↔ NonNeg v := nonNegative_ok

theorem permille_permille {name : String} {v : Option Int64} :
    permille name v = .ok () ↔ Permille v := permille_ok

theorem BudgetCapacity.validate_ok {c : BudgetCapacity} : c.validate = .ok () ↔ c.Valid := by
  have hgpu : (match c.gpuPresent, c.gpuCount with
      | some present, some count => refuseIf (present ≠ decide (0 < count))
          [.s "capacity.gpuCount ", .d count.toInt,
            .s " disagrees with capacity.gpuPresent ", .t present]
      | _, _ => .ok () : Check) = .ok () ↔
      ∀ present ∈ c.gpuPresent, ∀ count ∈ c.gpuCount, present = decide (0 < count) := by
    cases c.gpuPresent <;> cases c.gpuCount <;> simp
  rw [BudgetCapacity.validate, bind_ok, hgpu, allNonNegative_ok]
  simp only [List.forall_mem_cons, List.not_mem_nil, IsEmpty.forall_iff, implies_true, and_true]
  constructor
  · rintro ⟨⟨h1, h2, h3, h4, h5, h6, h7, h8, h9, h10, h11⟩, hg⟩
    exact ⟨h1, h2, h3, h4, h5, h6, h7, h8, h9, h10, h11, hg⟩
  · rintro ⟨h1, h2, h3, h4, h5, h6, h7, h8, h9, h10, h11, hg⟩
    exact ⟨⟨h1, h2, h3, h4, h5, h6, h7, h8, h9, h10, h11⟩, hg⟩

theorem BudgetSignal.validate_ok {s : BudgetSignal} : s.validate = .ok () ↔ s.Valid := by
  have hshared : ¬(s.sharedWith ≠ default ∧
      (signalValid s.sharedWith = false ∨ s.sharedWith = s.id)) ↔
      s.sharedWith = default ∨ Known s.sharedWith ∧ s.sharedWith ≠ s.id := by
    rw [not_and_or, not_not, not_or, Bool.not_eq_false, signalValid_iff, Known]
  rw [BudgetSignal.validate]
  simp only [bind_ok, refuseIf_ok, known_signal_iff, within_ok, allNonNegative_ok,
    List.forall_mem_cons, List.not_mem_nil, IsEmpty.forall_iff, implies_true, and_true]
  simp only [BudgetSignal.rungs, BudgetSignal.releases, checkLadder_ok,
    unsetOrKnown_iff, not_not, hshared]
  constructor
  · rintro ⟨hid, hu, ⟨h1, h2, h3, h4, h5⟩, hl, ht, hr, hs⟩
    exact ⟨hid, hu, h1, h2, h3, h4, h5, hl, ht, hr, hs⟩
  · rintro ⟨hid, hu, h1, h2, h3, h4, h5, hl, ht, hr, hs⟩
    exact ⟨hid, hu, ⟨h1, h2, h3, h4, h5⟩, hl, ht, hr, hs⟩

theorem KillMode.validate_ok {k : KillMode} : k.validate = .ok () ↔ k.Valid := by
  unfold KillMode.validate
  by_cases hk : k = {}
  · rw [if_pos hk]
    subst hk
    exact ⟨fun _ => ⟨fun h => absurd rfl h, le_refl _, .inl rfl⟩, fun _ => rfl⟩
  · rw [if_neg hk]
    simp only [bind_ok, known_iff, refuseIf_ok, unsetOrKnown_iff, Int32.not_lt]
    constructor
    · rintro ⟨hm, ha, hr⟩
      exact ⟨fun _ => hm, Int32.le_iff_toInt_le.mp ha, hr⟩
    · rintro ⟨hm, ha, hr⟩
      exact ⟨hm hk, Int32.le_iff_toInt_le.mpr ha, hr⟩

theorem WouldKill.validate_ok {w : WouldKill} : w.validate = .ok () ↔ w.Valid := by
  simp only [WouldKill.validate, bind_ok, known_iff, refuseIf_ok, Bool.not_eq_true]
  constructor
  · rintro ⟨hb, hr, hs⟩
    exact ⟨hb, hr, hs⟩
  · rintro ⟨hb, hr, hs⟩
    exact ⟨hb, hr, hs⟩

theorem WindowCount.validate_ok {w : WindowCount} : w.validate = .ok () ↔ w.Valid := by
  simp only [WindowCount.validate, bind_ok, refuseIf_ok, not_or, Bool.not_eq_false,
    Wire.valid_iff, Int64.not_lt]
  constructor
  · rintro ⟨⟨hw, hr⟩, hc⟩
    exact ⟨hw, hr, Int64.le_iff_toInt_le.mp hc⟩
  · rintro ⟨hw, hr, hc⟩
    exact ⟨⟨hw, hr⟩, Int64.le_iff_toInt_le.mpr hc⟩

theorem BandCounters.validate_ok {c : BandCounters} : c.validate = .ok () ↔ c.Valid := by
  simp only [BandCounters.validate, bind_ok, known_iff, forEach_ok, refuseIf_ok, not_lt,
    forEachDistinct_ok, WindowCount.validate_ok, and_true, Int64.not_lt]
  constructor
  · rintro ⟨hb, ht, hn, hw, hd⟩
    exact ⟨hb, fun f hf => Int64.le_iff_toInt_le.mp (ht f hf), hn, hw, hd⟩
  · rintro ⟨hb, ht, hn, hw, hd⟩
    exact ⟨hb, fun f hf => Int64.le_iff_toInt_le.mpr (ht f hf), hn, hw, hd⟩

theorem resourceVersionCheck_ok {label : String} {v : GoString} :
    resourceVersionCheck label v = .ok () ↔
      v = [] ∨ isPrintableASCII v maxPolicyResourceVersionBytes = true := by
  rw [resourceVersionCheck, refuseIf_ok, not_and_or, not_not, Bool.not_eq_false]

theorem PolicyRef.validate_ok {r : PolicyRef} : r.validate = .ok () ↔ r.Valid := by
  simp only [PolicyRef.validate, bind_ok, refuseIf_ok, Bool.not_eq_false, resourceVersionCheck_ok]
  constructor
  · rintro ⟨hn, hv⟩
    exact ⟨hn, hv⟩
  · rintro ⟨hn, hv⟩
    exact ⟨hn, hv⟩

theorem AppliedPolicy.validate_ok {p : AppliedPolicy} : p.validate = .ok () ↔ p.Valid := by
  simp only [AppliedPolicy.validate, bind_ok, resourceVersionCheck_ok, known_iff,
    forEachDistinct_ok, and_true, List.map_id, refuseIf_ok, not_lt]
  simp only [Bool.not_eq_false]
  constructor
  · rintro ⟨hn, hv, ho, hl, hf, hd⟩
    exact ⟨⟨hn, hv⟩, ho, hl, hf, hd⟩
  · rintro ⟨⟨hn, hv⟩, ho, hl, hf, hd⟩
    exact ⟨hn, hv, ho, hl, hf, hd⟩

theorem DarwinSignals.validate_ok {d : DarwinSignals} : d.validate = .ok () ↔ d.Valid := by
  rw [DarwinSignals.validate, bind_ok, permille_permille, allNonNegative_ok]
  simp only [List.forall_mem_append, List.forall_mem_cons, List.not_mem_nil, IsEmpty.forall_iff,
    implies_true, and_true]
  have hnonneg : Permille d.memorystatusLevelPermille →
      ∀ n ∈ d.memorystatusLevelPermille, 0 ≤ n.toInt := fun h n hn => (h n hn).1
  cases hc : d.compressor with
  | none =>
    simp only [List.not_mem_nil, IsEmpty.forall_iff, implies_true, and_true]
    constructor
    · rintro ⟨⟨h1, _, h3, h4⟩, h2⟩
      exact ⟨h1, h2, h3, h4, by simp [hc]⟩
    · rintro ⟨h1, h2, h3, h4, _⟩
      exact ⟨⟨h1, hnonneg h2, h3, h4⟩, h2⟩
  | some c =>
    simp only [List.forall_mem_cons, List.not_mem_nil, IsEmpty.forall_iff, implies_true, and_true]
    constructor
    · rintro ⟨⟨⟨h1, _, h3, h4⟩, h5⟩, h2⟩
      refine ⟨h1, h2, h3, h4, ?_⟩
      intro c' hc'
      rw [hc, Option.mem_some_iff] at hc'
      exact hc' ▸ h5
    · rintro ⟨h1, h2, h3, h4, h5⟩
      exact ⟨⟨⟨h1, hnonneg h2, h3, h4⟩, h5 c hc⟩, h2⟩

theorem PSILine.validate_ok {path : String} {l : PSILine} :
    l.validate path = .ok () ↔ l.Valid := by
  simp only [PSILine.validate, bind_ok, permille_permille, nonNegative_nonNeg]
  constructor
  · rintro ⟨h1, h2, h3⟩
    exact ⟨h1, h2, h3⟩
  · rintro ⟨h1, h2, h3⟩
    exact ⟨h1, h2, h3⟩

theorem PSIResource.validate_ok {path : String} {r : PSIResource} :
    r.validate path = .ok () ↔ r.Valid := by
  simp only [PSIResource.validate, bind_ok, checkSome_ok, PSILine.validate_ok, PSIResource.Valid]

theorem LinuxSignals.validate_ok {l : LinuxSignals} : l.validate = .ok () ↔ l.Valid := by
  have hevents (e : LinuxMemoryEvents) : e.validate = .ok () ↔ e.Valid := by
    simp only [LinuxMemoryEvents.validate, allNonNegative_ok, List.forall_mem_cons,
      List.not_mem_nil, IsEmpty.forall_iff, implies_true, and_true]
    constructor
    · rintro ⟨h1, h2, h3, h4⟩
      exact ⟨h1, h2, h3, h4⟩
    · rintro ⟨h1, h2, h3, h4⟩
      exact ⟨h1, h2, h3, h4⟩
  simp only [LinuxSignals.validate, LinuxPSI.validate, bind_ok, checkSome_ok,
    PSIResource.validate_ok, hevents, LinuxSignals.Valid, LinuxPSI.Valid]

/-- The validator accepts exactly the valid observations. -/
theorem NodeBudgetObservation.validate_ok {o : NodeBudgetObservation} :
    o.validate = .ok () ↔ o.Valid := by
  have hblock : ¬(decide (o.platform = word .darwin) ≠ o.darwin.isSome) ↔
      ((o.platform = word .darwin) ↔ o.darwin.isSome = true) := by
    rw [not_not, Bool.eq_iff_iff, decide_eq_true_iff]
  have hpolicy (p : AppliedPolicy) :
      ¬(p.outcome ≠ word .rejected ∧ o.inForce ≠ some p.ref) ↔
        p.outcome = word .rejected ∨ o.inForce = some p.ref := by
    rw [not_and_or, not_not, not_not]
  rw [NodeBudgetObservation.validate]
  simp only [bind_ok, known_iff, checkSome_ok, within_ok, forEachDistinct_ok, and_true,
    BudgetCapacity.validate_ok, BudgetSignal.validate_ok, KillMode.validate_ok,
    WouldKill.validate_ok, BandCounters.validate_ok, AppliedPolicy.validate_ok,
    PolicyRef.validate_ok, DarwinSignals.validate_ok, LinuxSignals.validate_ok,
    nonNegative_nonNeg, refuseIf_ok, unsetOrKnown_signal_iff, hblock, hpolicy, not_lt,
    Int64.not_lt, Bool.not_eq_true]
  constructor
  · rintro ⟨h1, h2, h3, h4, h5, h6, h7, h8, h9, h10, h11, ⟨h12, h13⟩, h14, h15, h16, h17, h18,
      ⟨h19, h20⟩, h21, h22, h23, h24, h25⟩
    have h8' : o.admitReasonSignal ≠ default → o.admits = false := by
      intro hne
      rw [← Bool.not_eq_true]
      exact fun ha => h8 ⟨hne, ha⟩
    exact ⟨h1, Int64.le_iff_toInt_le.mp h2, h3, h4, h5, h6, h7, h8', h9, h10, h11, h12, h13, h14,
      h15, h16, h17, h18, h19, h20, h21, h22, h23, h24, h25⟩
  · rintro ⟨h1, h2, h3, h4, h5, h6, h7, h8, h9, h10, h11, h12, h13, h14, h15, h16, h17, h18,
      h19, h20, h21, h22, h23, h24, h25⟩
    have h8' : ¬(o.admitReasonSignal ≠ default ∧ o.admits = true) := by
      rintro ⟨hne, ha⟩
      rw [h8 hne] at ha
      exact Bool.false_ne_true ha
    exact ⟨h1, Int64.le_iff_toInt_le.mpr h2, h3, h4, h5, h6, h7, h8', h9, h10, h11, ⟨h12, h13⟩,
      h14, h15, h16, h17, h18, ⟨h19, h20⟩, h21, h22, h23, h24, h25⟩

theorem NodeBudgetObservation.Validate_ok {o : NodeBudgetObservation} :
    o.Validate = .ok () ↔ o.Valid := by
  rw [NodeBudgetObservation.Validate, wrapped_ok, NodeBudgetObservation.validate_ok]

end K3smApis.Budget
