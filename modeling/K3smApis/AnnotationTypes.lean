import K3smApis.GoJsonEncode
import K3smApis.Rfc3339
import K3smApis.PolicySpec

/-!
# The annotation payloads as Go types

The payload structs of `annotationpayload.go` and every type they reach, as encoding/json
sees them: JSON names, `omitempty` and `omitzero`, embedded structs, and the types with
JSON methods of their own, which are `metav1.Time` and the producer vocabularies.
-/
namespace K3smApis.Budget
open GoJson

structure NodeBudgetReport where
  schema : Int64 := 0
  observation : NodeBudgetObservation := {}
  deriving DecidableEq, Repr, Inhabited

structure NodeBudgetDesiredPolicy where
  schema : Int64 := 0
  name : GoString := []
  resourceVersion : GoString := []
  spec : NodeBudgetPolicySpec := {}
  deriving DecidableEq, Repr, Inhabited

/-- A signed integer type of some width, by its values. -/
def signedInt {α : Type} [DecidableEq α] (bits : ℕ) (toInt : α → ℤ) (ofInt : ℤ → α) : GoType α :=
  .leaf {
    zero := ofInt 0
    isEmpty := fun x => x = ofInt 0
    isZero := fun x => x = ofInt 0
    encode := fun x => .num (Decimal.ofInt (toInt x))
    decode := fun old v =>
      match v with
      | .null => some old
      | .num t => (Decimal.parseInt bits t).map ofInt
      | _ => none
    encode_distinct := fun _ => .num _ }

/-- `int64`, and `int` on the 64-bit platforms. -/
def int64 : GoType Int64 := signedInt 64 Int64.toInt Int64.ofInt

def int32 : GoType Int32 := signedInt 32 Int32.toInt Int32.ofInt

def bool : GoType Bool :=
  .leaf {
    zero := false
    isEmpty := not
    isZero := not
    encode := .bool
    decode := fun old v =>
      match v with
      | .null => some old
      | .bool b => some b
      | _ => none
    encode_distinct := fun _ => .bool _ }

/-- A string type by its bytes: `null` leaves the value as it is. -/
def text {α : Type} (toText : α → GoString) (ofText : GoString → α) : GoType α :=
  .leaf {
    zero := ofText []
    isEmpty := fun x => toText x = []
    isZero := fun x => toText x = []
    encode := fun x => .str (toText x)
    decode := fun old v =>
      match v with
      | .null => some old
      | .str s => some (ofText s)
      | _ => none
    encode_distinct := fun _ => .str _ }

def string : GoType GoString := text id id

/-- A string type with constants and no JSON methods. -/
def enum {V : Type} : GoType (Wire V) := text Wire.text Wire.mk

/-- `decodeOpenEnum`: a value that is not known becomes `unknown`, and the empty string
stays empty. -/
def decodeOpenEnum {V : Type} [Vocabulary V] (unknown : V) (s : GoString) : Wire V :=
  if s ≠ [] ∧ (Wire.mk s : Wire V).valid = false then word unknown else ⟨s⟩

/-- A producer vocabulary, whose `UnmarshalJSON` is `decodeOpenEnum`. -/
def openEnum {V : Type} [Vocabulary V] (unknown : V) : GoType (Wire V) :=
  .leaf {
    zero := default
    isEmpty := fun x => x.text = []
    isZero := fun x => x.text = []
    encode := fun x => .str x.text
    decode := fun _ v =>
      match v with
      | .null => some (decodeOpenEnum unknown [])
      | .str s => some (decodeOpenEnum unknown s)
      | _ => none
    encode_distinct := fun _ => .str _ }

/-- The JSON of a time: null when it is zero, else RFC 3339 in UTC, cut to seconds. -/
def encodeTime (t : Time) : Json :=
  if t.isZero then .null else .str (Rfc3339.format t.sec.toInt)

/-- The local time a timestamp names. -/
def parseTime (s : GoString) : Option Time :=
  (Rfc3339.parse s).map (fun r =>
    ⟨Int64.ofInt r.1, ⟨r.2 % 1000000000, Nat.mod_lt _ (by decide)⟩, .localTime⟩)

theorem encodeTime_distinct (t : Time) : (encodeTime t).KeysDistinct := by
  unfold encodeTime
  split_ifs
  · exact .null
  · exact .str _

/-- `metav1.Time`. -/
def time : GoType Time :=
  .leaf {
    zero := Time.zero
    isEmpty := fun _ => false
    isZero := Time.isZero
    encode := encodeTime
    decode := fun _ v =>
      match v with
      | .null => some Time.zero
      | .str s => parseTime s
      | _ => none
    encode_distinct := encodeTime_distinct }

def BudgetCapacity.goType : GoType BudgetCapacity :=
  .struct (
    .field (lit "cpuCapacityMilli") .empty (.ptr int64) <|
    .field (lit "cpuSystemReserveMilli") .empty (.ptr int64) <|
    .field (lit "memCapacityBytes") .empty (.ptr int64) <|
    .field (lit "memSystemReserveBytes") .empty (.ptr int64) <|
    .field (lit "memEvictionReserveBytes") .empty (.ptr int64) <|
    .field (lit "memAllocatableBytes") .empty (.ptr int64) <|
    .field (lit "swapTotalBytes") .empty (.ptr int64) <|
    .field (lit "swapUsedBytes") .empty (.ptr int64) <|
    .field (lit "cpuPerformanceCores") .empty (.ptr int64) <|
    .field (lit "cpuEfficiencyCores") .empty (.ptr int64) <|
    .field (lit "gpuPresent") .empty (.ptr bool) <|
    .field (lit "gpuCount") .empty (.ptr int64) <|
    .nil)
    ⟨fun s => (s.cpuCapacityMilli, s.cpuSystemReserveMilli, s.memCapacityBytes,
      s.memSystemReserveBytes, s.memEvictionReserveBytes, s.memAllocatableBytes, s.swapTotalBytes,
      s.swapUsedBytes, s.cpuPerformanceCores, s.cpuEfficiencyCores, s.gpuPresent, s.gpuCount, ()),
      fun (a, b, c, d, e, f, g, h, i, j, k, l, ()) => ⟨a, b, c, d, e, f, g, h, i, j, k, l⟩,
      fun _ => rfl, fun _ => rfl⟩

def BudgetSignal.goType : GoType BudgetSignal :=
  .struct (
    .field (lit "id") .never enum <|
    .field (lit "unit") .never enum <|
    .field (lit "value") .empty (.ptr int64) <|
    .field (lit "warnThreshold") .empty (.ptr int64) <|
    .field (lit "admitStopThreshold") .empty (.ptr int64) <|
    .field (lit "criticalThreshold") .empty (.ptr int64) <|
    .field (lit "evictSoftThreshold") .empty (.ptr int64) <|
    .field (lit "evictHardThreshold") .empty (.ptr int64) <|
    .field (lit "warnRelease") .empty (.ptr int64) <|
    .field (lit "admitStopRelease") .empty (.ptr int64) <|
    .field (lit "criticalRelease") .empty (.ptr int64) <|
    .field (lit "evictSoftRelease") .empty (.ptr int64) <|
    .field (lit "evictHardRelease") .empty (.ptr int64) <|
    .field (lit "graceSeconds") .empty (.ptr int64) <|
    .field (lit "minReclaimBytes") .empty (.ptr int64) <|
    .field (lit "windowSeconds") .empty (.ptr int64) <|
    .field (lit "etaToNextRungSeconds") .empty (.ptr int64) <|
    .field (lit "trend") .empty (openEnum .unknown) <|
    .field (lit "limitingResource") .empty (openEnum .unknown) <|
    .field (lit "sharedWith") .empty enum <|
    .nil)
    ⟨fun s => (s.id, s.unit, s.value, s.warnThreshold, s.admitStopThreshold, s.criticalThreshold,
      s.evictSoftThreshold, s.evictHardThreshold, s.warnRelease, s.admitStopRelease,
      s.criticalRelease, s.evictSoftRelease, s.evictHardRelease, s.graceSeconds,
      s.minReclaimBytes, s.windowSeconds, s.etaToNextRungSeconds, s.trend, s.limitingResource,
      s.sharedWith, ()),
      fun (a, b, c, d, e, f, g, h, i, j, k, l, m, n, o, p, q, r, s, t, ()) =>
        ⟨a, b, c, d, e, f, g, h, i, j, k, l, m, n, o, p, q, r, s, t⟩,
      fun _ => rfl, fun _ => rfl⟩

def BudgetRecommendation.goType : GoType BudgetRecommendation :=
  .struct (
    .field (lit "safeAdditionalBytes") .empty (.ptr int64) <|
    .field (lit "basis") .empty enum <|
    .nil)
    ⟨fun s => (s.safeAdditionalBytes, s.basis, ()),
      fun (a, b, ()) => ⟨a, b⟩,
      fun _ => rfl, fun _ => rfl⟩

def KillMode.goType : GoType KillMode :=
  .struct (
    .field (lit "mode") .empty enum <|
    .field (lit "armed") .empty bool <|
    .field (lit "armingEpisodes") .empty int32 <|
    .field (lit "reason") .empty (openEnum .unknown) <|
    .nil)
    ⟨fun s => (s.mode, s.armed, s.armingEpisodes, s.reason, ()),
      fun (a, b, c, d, ()) => ⟨a, b, c, d⟩,
      fun _ => rfl, fun _ => rfl⟩

def WouldKill.goType : GoType WouldKill :=
  .struct (
    .field (lit "band") .never enum <|
    .field (lit "reason") .never (openEnum .unknown) <|
    .field (lit "at") .never time <|
    .nil)
    ⟨fun s => (s.band, s.reason, s.at_, ()),
      fun (a, b, c, ()) => ⟨a, b, c⟩,
      fun _ => rfl, fun _ => rfl⟩

def WindowCount.goType : GoType WindowCount :=
  .struct (
    .field (lit "window") .never enum <|
    .field (lit "reason") .never (openEnum .unknown) <|
    .field (lit "count") .never int64 <|
    .nil)
    ⟨fun s => (s.window, s.reason, s.count, ()),
      fun (a, b, c, ()) => ⟨a, b, c⟩,
      fun _ => rfl, fun _ => rfl⟩

def BandCounters.goType : GoType BandCounters :=
  .struct (
    .field (lit "band") .never enum <|
    .field (lit "evictionsTotal") .never int64 <|
    .field (lit "oomKillsTotal") .never int64 <|
    .field (lit "kernelKillsTotal") .never int64 <|
    .field (lit "restartsTotal") .never int64 <|
    .field (lit "memHighEventsTotal") .never int64 <|
    .field (lit "tier1RefusedTotal") .never int64 <|
    .field (lit "windows") .empty (.slice WindowCount.goType) <|
    .nil)
    ⟨fun s => (s.band, s.evictionsTotal, s.oomKillsTotal, s.kernelKillsTotal, s.restartsTotal,
      s.memHighEventsTotal, s.tier1RefusedTotal, s.windows, ()),
      fun (a, b, c, d, e, f, g, h, ()) => ⟨a, b, c, d, e, f, g, h⟩,
      fun _ => rfl, fun _ => rfl⟩

def DarwinCompressor.goType : GoType DarwinCompressor :=
  .struct (
    .field (lit "bytesUsed") .empty (.ptr int64) <|
    .field (lit "bytesStored") .empty (.ptr int64) <|
    .field (lit "segmentLimitBytes") .empty (.ptr int64) <|
    .nil)
    ⟨fun s => (s.bytesUsed, s.bytesStored, s.segmentLimitBytes, ()),
      fun (a, b, c, ()) => ⟨a, b, c⟩,
      fun _ => rfl, fun _ => rfl⟩

def DarwinSignals.goType : GoType DarwinSignals :=
  .struct (
    .field (lit "vmPressureLevel") .empty (.ptr int64) <|
    .field (lit "memorystatusLevelPermille") .empty (.ptr int64) <|
    .field (lit "compressor") .empty (.ptr DarwinCompressor.goType) <|
    .field (lit "swapinsTotal") .empty (.ptr int64) <|
    .field (lit "swapoutsTotal") .empty (.ptr int64) <|
    .nil)
    ⟨fun s => (s.vmPressureLevel, s.memorystatusLevelPermille, s.compressor, s.swapinsTotal,
      s.swapoutsTotal, ()),
      fun (a, b, c, d, e, ()) => ⟨a, b, c, d, e⟩,
      fun _ => rfl, fun _ => rfl⟩

def PSILine.goType : GoType PSILine :=
  .struct (
    .field (lit "avg10Permille") .empty (.ptr int64) <|
    .field (lit "avg60Permille") .empty (.ptr int64) <|
    .field (lit "totalUs") .empty (.ptr int64) <|
    .nil)
    ⟨fun s => (s.avg10Permille, s.avg60Permille, s.totalUs, ()),
      fun (a, b, c, ()) => ⟨a, b, c⟩,
      fun _ => rfl, fun _ => rfl⟩

def PSIResource.goType : GoType PSIResource :=
  .struct (
    .field (lit "some") .empty (.ptr PSILine.goType) <|
    .field (lit "full") .empty (.ptr PSILine.goType) <|
    .nil)
    ⟨fun s => (s.some_, s.full, ()), fun (a, b, ()) => ⟨a, b⟩, fun _ => rfl, fun _ => rfl⟩

def LinuxPSI.goType : GoType LinuxPSI :=
  .struct (
    .field (lit "cpu") .empty (.ptr PSIResource.goType) <|
    .field (lit "memory") .empty (.ptr PSIResource.goType) <|
    .field (lit "io") .empty (.ptr PSIResource.goType) <|
    .nil)
    ⟨fun s => (s.cpu, s.memory, s.io, ()),
      fun (a, b, c, ()) => ⟨a, b, c⟩,
      fun _ => rfl, fun _ => rfl⟩

def LinuxMemoryEvents.goType : GoType LinuxMemoryEvents :=
  .struct (
    .field (lit "high") .empty (.ptr int64) <|
    .field (lit "max") .empty (.ptr int64) <|
    .field (lit "oom") .empty (.ptr int64) <|
    .field (lit "oomKill") .empty (.ptr int64) <|
    .nil)
    ⟨fun s => (s.high, s.max, s.oom, s.oomKill, ()),
      fun (a, b, c, d, ()) => ⟨a, b, c, d⟩,
      fun _ => rfl, fun _ => rfl⟩

def LinuxSignals.goType : GoType LinuxSignals :=
  .struct (
    .field (lit "psi") .empty (.ptr LinuxPSI.goType) <|
    .field (lit "memoryEvents") .empty (.ptr LinuxMemoryEvents.goType) <|
    .nil)
    ⟨fun s => (s.psi, s.memoryEvents, ()), fun (a, b, ()) => ⟨a, b⟩, fun _ => rfl, fun _ => rfl⟩

/-- The values of the fields of `PolicyRef`. -/
abbrev PolicyRef.Row : Type :=
  GoString × GoString × Unit

def PolicyRef.fields : Fields PolicyRef.Row :=
  .field (lit "name") .never string <|
  .field (lit "resourceVersion") .empty string <|
  .nil

def PolicyRef.equiv : PolicyRef ≃ PolicyRef.Row :=
  ⟨fun s => (s.name, s.resourceVersion, ()), fun (a, b, ()) => ⟨a, b⟩, fun _ => rfl, fun _ => rfl⟩

def PolicyRef.goType : GoType PolicyRef := .struct PolicyRef.fields PolicyRef.equiv

def AppliedPolicy.goType : GoType AppliedPolicy :=
  .struct (
    .embed PolicyRef.fields PolicyRef.equiv <|
    .field (lit "outcome") .never enum <|
    .field (lit "clampedFields") .empty (.slice enum) <|
    .nil)
    ⟨fun s => (s.ref, s.outcome, s.clampedFields, ()),
      fun (a, b, c, ()) => ⟨a, b, c⟩,
      fun _ => rfl, fun _ => rfl⟩

/-- The values of the fields of `NodeBudgetObservation`. -/
abbrev NodeBudgetObservation.Row : Type :=
  Time × Int64 × Wire Platform × Wire Level × Bool ×
    Wire SignalID × Option Time × BudgetCapacity × Slice BudgetSignal × BudgetRecommendation ×
    KillMode × Option WouldKill × Slice BandCounters × Option AppliedPolicy × Option PolicyRef ×
    Option DarwinSignals × Option LinuxSignals × Unit

def NodeBudgetObservation.fields : Fields NodeBudgetObservation.Row :=
  .field (lit "observedAt") .zero time <|
  .field (lit "producerGeneration") .empty int64 <|
  .field (lit "platform") .empty enum <|
  .field (lit "level") .empty enum <|
  .field (lit "admit") .empty bool <|
  .field (lit "admitReasonSignal") .empty enum <|
  .field (lit "evictDeadline") .empty (.ptr time) <|
  .field (lit "capacity") .zero BudgetCapacity.goType <|
  .field (lit "signals") .empty (.slice BudgetSignal.goType) <|
  .field (lit "recommendation") .zero BudgetRecommendation.goType <|
  .field (lit "killMode") .zero KillMode.goType <|
  .field (lit "wouldKill") .empty (.ptr WouldKill.goType) <|
  .field (lit "counters") .empty (.slice BandCounters.goType) <|
  .field (lit "policy") .empty (.ptr AppliedPolicy.goType) <|
  .field (lit "inForce") .empty (.ptr PolicyRef.goType) <|
  .field (lit "darwin") .empty (.ptr DarwinSignals.goType) <|
  .field (lit "linux") .empty (.ptr LinuxSignals.goType) <|
  .nil

def NodeBudgetObservation.equiv : NodeBudgetObservation ≃ NodeBudgetObservation.Row :=
  ⟨fun s => (s.observedAt, s.producerGeneration, s.platform, s.level, s.admits,
    s.admitReasonSignal, s.evictDeadline, s.capacity, s.signals, s.recommendation, s.killMode,
    s.wouldKill, s.counters, s.policy, s.inForce, s.darwin, s.linux, ()),
    fun (a, b, c, d, e, f, g, h, i, j, k, l, m, n, o, p, q, ()) =>
      ⟨a, b, c, d, e, f, g, h, i, j, k, l, m, n, o, p, q⟩,
    fun _ => rfl, fun _ => rfl⟩

def NodeBudgetReport.goType : GoType NodeBudgetReport :=
  .struct (
    .field (lit "schema") .never int64 <|
    .embed NodeBudgetObservation.fields NodeBudgetObservation.equiv <|
    .nil)
    ⟨fun s => (s.schema, s.observation, ()), fun (a, b, ()) => ⟨a, b⟩, fun _ => rfl, fun _ => rfl⟩

def SignalThresholds.goType : GoType SignalThresholds :=
  .struct (
    .field (lit "signal") .never enum <|
    .field (lit "warnThreshold") .empty (.ptr int64) <|
    .field (lit "admitStopThreshold") .empty (.ptr int64) <|
    .field (lit "criticalThreshold") .empty (.ptr int64) <|
    .field (lit "evictSoftThreshold") .empty (.ptr int64) <|
    .field (lit "evictHardThreshold") .empty (.ptr int64) <|
    .field (lit "warnRelease") .empty (.ptr int64) <|
    .field (lit "admitStopRelease") .empty (.ptr int64) <|
    .field (lit "criticalRelease") .empty (.ptr int64) <|
    .field (lit "evictSoftRelease") .empty (.ptr int64) <|
    .field (lit "evictHardRelease") .empty (.ptr int64) <|
    .field (lit "graceSeconds") .empty (.ptr int64) <|
    .field (lit "minReclaimBytes") .empty (.ptr int64) <|
    .field (lit "dwellSeconds") .empty (.ptr int64) <|
    .field (lit "windowSeconds") .empty (.ptr int64) <|
    .nil)
    ⟨fun s => (s.signal, s.warnThreshold, s.admitStopThreshold, s.criticalThreshold,
      s.evictSoftThreshold, s.evictHardThreshold, s.warnRelease, s.admitStopRelease,
      s.criticalRelease, s.evictSoftRelease, s.evictHardRelease, s.graceSeconds,
      s.minReclaimBytes, s.dwellSeconds, s.windowSeconds, ()),
      fun (a, b, c, d, e, f, g, h, i, j, k, l, m, n, o, ()) =>
        ⟨a, b, c, d, e, f, g, h, i, j, k, l, m, n, o⟩,
      fun _ => rfl, fun _ => rfl⟩

def BudgetReserves.goType : GoType BudgetReserves :=
  .struct (
    .field (lit "cpuSystemReserveMilli") .empty (.ptr int64) <|
    .field (lit "memSystemReserveBytes") .empty (.ptr int64) <|
    .field (lit "memEvictionReserveBytes") .empty (.ptr int64) <|
    .nil)
    ⟨fun s => (s.cpuSystemReserveMilli, s.memSystemReserveBytes, s.memEvictionReserveBytes, ()),
      fun (a, b, c, ()) => ⟨a, b, c⟩,
      fun _ => rfl, fun _ => rfl⟩

def BudgetHistory.goType : GoType BudgetHistory :=
  .struct (
    .field (lit "memoryHalfLifeSeconds") .empty (.ptr int64) <|
    .field (lit "cpuHalfLifeSeconds") .empty (.ptr int64) <|
    .field (lit "marginPermille") .empty (.ptr int32) <|
    .nil)
    ⟨fun s => (s.memoryHalfLifeSeconds, s.cpuHalfLifeSeconds, s.marginPermille, ()),
      fun (a, b, c, ()) => ⟨a, b, c⟩,
      fun _ => rfl, fun _ => rfl⟩

def NodeBudgetPolicySpec.goType : GoType NodeBudgetPolicySpec :=
  .struct (
    .field (lit "nodeSelector") .empty .stringMap <|
    .field (lit "priority") .empty int32 <|
    .field (lit "thresholds") .empty (.slice SignalThresholds.goType) <|
    .field (lit "reserves") .empty (.ptr BudgetReserves.goType) <|
    .field (lit "history") .empty (.ptr BudgetHistory.goType) <|
    .field (lit "mode") .empty enum <|
    .field (lit "tier1GraceSeconds") .empty (.ptr int64) <|
    .field (lit "tier1HeldSeconds") .empty (.ptr int64) <|
    .field (lit "tier1MaxDeliveriesPerHour") .empty (.ptr int32) <|
    .field (lit "tier1CooloffSeconds") .empty (.ptr int64) <|
    .field (lit "psiHeldPermille") .empty (.ptr int32) <|
    .nil)
    ⟨fun s => (s.nodeSelector, s.priority, s.thresholds, s.reserves, s.history, s.mode,
      s.tier1GraceSeconds, s.tier1HeldSeconds, s.tier1MaxDeliveriesPerHour, s.tier1CooloffSeconds,
      s.psiHeldPermille, ()),
      fun (a, b, c, d, e, f, g, h, i, j, k, ()) => ⟨a, b, c, d, e, f, g, h, i, j, k⟩,
      fun _ => rfl, fun _ => rfl⟩

def NodeBudgetDesiredPolicy.goType : GoType NodeBudgetDesiredPolicy :=
  .struct (
    .field (lit "schema") .never int64 <|
    .field (lit "name") .never string <|
    .field (lit "resourceVersion") .never string <|
    .field (lit "spec") .never NodeBudgetPolicySpec.goType <|
    .nil)
    ⟨fun s => (s.schema, s.name, s.resourceVersion, s.spec, ()),
      fun (a, b, c, d, ()) => ⟨a, b, c, d⟩,
      fun _ => rfl, fun _ => rfl⟩

end K3smApis.Budget
