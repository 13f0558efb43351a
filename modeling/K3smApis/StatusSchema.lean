import K3smApis.BudgetSchema
import K3smApis.DnsName

/-!
# The status schema of a node budget

`NodeBudgetStatus` with its writer and conditions, and the status schema of
`budget.k3sm.io_nodebudgets.yaml`, object by object under the struct each one is for.
-/
namespace K3smApis.Budget
open GoJson Schema
open Cel (Expr)

structure BudgetWriter where
  shape : Wire WriterShape := default
  nodeNameExtra : Bool := false
  deriving DecidableEq, Repr, Inhabited

/-- `metav1.Condition`. -/
structure Condition where
  type_ : GoString := []
  status : GoString := []
  observedGeneration : Int64 := 0
  lastTransitionTime : Time := default
  reason : GoString := []
  message : GoString := []
  deriving DecidableEq, Repr, Inhabited

/-- A status embeds the observation it publishes. -/
structure NodeBudgetStatus where
  observation : NodeBudgetObservation := {}
  writer : Option BudgetWriter := none
  conditions : Slice Condition := none
  deriving DecidableEq, Repr, Inhabited

def BudgetWriter.goType : GoType BudgetWriter :=
  .struct (
    .field (lit "shape") .never enum <|
    .field (lit "nodeNameExtra") .empty bool <|
    .nil)
    ⟨fun s => (s.shape, s.nodeNameExtra, ()),
      fun (a, b, ()) => ⟨a, b⟩,
      fun _ => rfl, fun _ => rfl⟩

def Condition.goType : GoType Condition :=
  .struct (
    .field (lit "type") .never string <|
    .field (lit "status") .never string <|
    .field (lit "observedGeneration") .empty int64 <|
    .field (lit "lastTransitionTime") .never time <|
    .field (lit "reason") .never string <|
    .field (lit "message") .never string <|
    .nil)
    ⟨fun s =>
        (s.type_, s.status, s.observedGeneration, s.lastTransitionTime, s.reason, s.message, ()),
      fun (a, b, c, d, e, f, ()) => ⟨a, b, c, d, e, f⟩,
      fun _ => rfl, fun _ => rfl⟩

def NodeBudgetStatus.goType : GoType NodeBudgetStatus :=
  .struct (
    .embed NodeBudgetObservation.fields NodeBudgetObservation.equiv <|
    .field (lit "writer") .empty (.ptr BudgetWriter.goType) <|
    .field (lit "conditions") .empty (.slice Condition.goType) <|
    .nil)
    ⟨fun s => (s.observation, s.writer, s.conditions, ()),
      fun (a, b, c, ()) => ⟨a, b, c⟩,
      fun _ => rfl, fun _ => rfl⟩

/-- `type: string`, `format: date-time`. -/
def dateTime : Schema := .string { dateTime := true }

def BudgetCapacity.schema : Schema :=
  .object [] (
    .property "cpuCapacityMilli" (int64From 0) <|
    .property "cpuSystemReserveMilli" (int64From 0) <|
    .property "memCapacityBytes" (int64From 0) <|
    .property "memSystemReserveBytes" (int64From 0) <|
    .property "memEvictionReserveBytes" (int64From 0) <|
    .property "memAllocatableBytes" (int64From 0) <|
    .property "swapTotalBytes" (int64From 0) <|
    .property "swapUsedBytes" (int64From 0) <|
    .property "cpuPerformanceCores" (int64From 0) <|
    .property "cpuEfficiencyCores" (int64From 0) <|
    .property "gpuPresent" .boolean <|
    .property "gpuCount" (int64From 0) <|
    .nil)
    []

/-- `self.unit == (self.id == 'memory.compressor' ? 'permille' : …)`. -/
def unitRule : Expr :=
  .eq (.field ["unit"])
    (.cond (.eq (.field ["id"]) (.text "memory.compressor")) (.text "permille")
      (.cond (.eq (.field ["id"]) (.text "pid.available")) (.text "count") (.text "bytes")))

def BudgetSignal.schema : Schema :=
  .object ["id", "unit"] (
    .property "id" (enumOf signalWords) <|
    .property "unit" (enumOf ["bytes", "permille", "count"]) <|
    .property "value" (int64From 0) <|
    .property "warnThreshold" (int64From 0) <|
    .property "admitStopThreshold" (int64From 0) <|
    .property "criticalThreshold" (int64From 0) <|
    .property "evictSoftThreshold" (int64From 0) <|
    .property "evictHardThreshold" (int64From 0) <|
    .property "warnRelease" (int64From 0) <|
    .property "admitStopRelease" (int64From 0) <|
    .property "criticalRelease" (int64From 0) <|
    .property "evictSoftRelease" (int64From 0) <|
    .property "evictHardRelease" (int64From 0) <|
    .property "graceSeconds" (int64From 0) <|
    .property "minReclaimBytes" (int64From 0) <|
    .property "windowSeconds" (int64From 0) <|
    .property "etaToNextRungSeconds" (int64From 0) <|
    .property "trend" (enumOf ["falling", "steady", "rising", "unknown"]) <|
    .property "limitingResource"
      (enumOf ["memory", "swapfs", "nodefs", "imagefs", "pid", "cpu", "unknown"]) <|
    .property "sharedWith" (enumOf signalWords) <|
    .nil)
    (unitRule :: ladderRules "id")

def BudgetRecommendation.schema : Schema :=
  .object [] (
    .property "safeAdditionalBytes" (int64From 0) <|
    .property "basis" (enumOf signalWords) <|
    .nil)
    []

def KillMode.schema : Schema :=
  .object [] (
    .property "mode" (enumOf killModeWords) <|
    .property "armed" .boolean <|
    .property "armingEpisodes" (.integer (some 0) none) <|
    .property "reason" (enumOf
      ["cold-start", "observing", "armed", "policy-off", "disarm-file", "unknown"]) <|
    .nil)
    []

/-- The enumeration of the bands. -/
def bandWords : List String := ["critical", "standard", "batch"]

def WouldKill.schema : Schema :=
  .object ["band", "reason", "at"] (
    .property "band" (enumOf bandWords) <|
    .property "reason" (enumOf ["held-pressure", "memory-floor", "unknown"]) <|
    .property "at" dateTime <|
    .nil)
    []

def WindowCount.schema : Schema :=
  .object ["window", "reason", "count"] (
    .property "window" (enumOf ["1h", "24h"]) <|
    .property "reason" (enumOf ["eviction", "oom-kill", "kernel-kill", "restart", "mem-high",
      "tier1-refused", "unknown"]) <|
    .property "count" (int64From 0) <|
    .nil)
    []

def BandCounters.schema : Schema :=
  .object ["band", "evictionsTotal", "oomKillsTotal", "kernelKillsTotal", "restartsTotal",
      "memHighEventsTotal", "tier1RefusedTotal"] (
    .property "band" (enumOf bandWords) <|
    .property "evictionsTotal" (int64From 0) <|
    .property "oomKillsTotal" (int64From 0) <|
    .property "kernelKillsTotal" (int64From 0) <|
    .property "restartsTotal" (int64From 0) <|
    .property "memHighEventsTotal" (int64From 0) <|
    .property "tier1RefusedTotal" (int64From 0) <|
    .property "windows" (.array 12 (.map ["window", "reason"]) WindowCount.schema) <|
    .nil)
    []

/-- `maxLength: 253` and the pattern of an object name. -/
def nameText : Schema := .string { maxLength := some 253, pattern := some DnsName.subdomain }

/-- `maxLength: 64`. -/
def versionText : Schema := .string { maxLength := some 64 }

def AppliedPolicy.schema : Schema :=
  .object ["name", "outcome"] (
    .property "name" nameText <|
    .property "resourceVersion" versionText <|
    .property "outcome" (enumOf ["applied", "rejected", "clamped"]) <|
    .property "clampedFields" (.array 8 .set (enumOf ["tier1GraceSeconds", "tier1HeldSeconds",
      "tier1MaxDeliveriesPerHour", "tier1CooloffSeconds", "reserves.cpuSystemReserveMilli",
      "reserves.memSystemReserveBytes", "reserves.memEvictionReserveBytes"])) <|
    .nil)
    []

def PolicyRef.schema : Schema :=
  .object ["name"] (
    .property "name" nameText <|
    .property "resourceVersion" versionText <|
    .nil)
    []

def BudgetWriter.schema : Schema :=
  .object ["shape"] (
    .property "shape" (enumOf ["annotation-relay", "own-node"]) <|
    .property "nodeNameExtra" .boolean <|
    .nil)
    []

/-- A condition of some type carries a reason from the closed set of its status. -/
def reasonRule (type : String) (whenTrue otherwise : List String) : Expr :=
  .or (.ne (.field ["type"]) (.text type))
    (.cond (.eq (.field ["status"]) (.text "True"))
      (.isIn (.field ["reason"]) whenTrue) (.isIn (.field ["reason"]) otherwise))

def Condition.schema : Schema :=
  .object ["type", "status", "lastTransitionTime", "reason"] (
    .property "type" (.string { maxLength := some 316 }) <|
    .property "status" (enumOf ["True", "False"]) <|
    .property "observedGeneration" (int64From 0) <|
    .property "lastTransitionTime" dateTime <|
    .property "reason" (.string { maxLength := some 1024 }) <|
    .property "message" (.string { maxLength := some 32768 }) <|
    .nil)
    [reasonRule "Reporting" ["NodeReporting"]
        ["NodeNotReporting", "AnnotationMalformed", "SchemaUnsupported", "AnnotationTooLarge"],
      reasonRule "PolicyRejected" ["PolicyInvalid", "MergedLadderInverted"] ["PolicyAccepted"],
      reasonRule "PolicyClamped" ["FieldsClamped"] ["NoFieldsClamped"],
      reasonRule "PolicyConflict" ["MultiplePolicies"] ["SinglePolicy"]]

def DarwinCompressor.schema : Schema :=
  .object [] (
    .property "bytesUsed" (int64From 0) <|
    .property "bytesStored" (int64From 0) <|
    .property "segmentLimitBytes" (int64From 0) <|
    .nil)
    []

def DarwinSignals.schema : Schema :=
  .object [] (
    .property "vmPressureLevel" (int64From 0) <|
    .property "memorystatusLevelPermille" permille64 <|
    .property "compressor" DarwinCompressor.schema <|
    .property "swapinsTotal" (int64From 0) <|
    .property "swapoutsTotal" (int64From 0) <|
    .nil)
    []

def PSILine.schema : Schema :=
  .object [] (
    .property "avg10Permille" permille64 <|
    .property "avg60Permille" permille64 <|
    .property "totalUs" (int64From 0) <|
    .nil)
    []

def PSIResource.schema : Schema :=
  .object [] (
    .property "some" PSILine.schema <|
    .property "full" PSILine.schema <|
    .nil)
    []

def LinuxPSI.schema : Schema :=
  .object [] (
    .property "cpu" PSIResource.schema <|
    .property "memory" PSIResource.schema <|
    .property "io" PSIResource.schema <|
    .nil)
    []

def LinuxMemoryEvents.schema : Schema :=
  .object [] (
    .property "high" (int64From 0) <|
    .property "max" (int64From 0) <|
    .property "oom" (int64From 0) <|
    .property "oomKill" (int64From 0) <|
    .nil)
    []

def LinuxSignals.schema : Schema :=
  .object [] (
    .property "psi" LinuxPSI.schema <|
    .property "memoryEvents" LinuxMemoryEvents.schema <|
    .nil)
    []

/-- A reporting status carries exactly one of darwin and linux. -/
def oneBlockRule : Expr :=
  .or (.not (.has [] "level")) (.ne (.has [] "darwin") (.has [] "linux"))

/-- A reporting status names its platform. -/
def platformRule : Expr := .or (.not (.has [] "level")) (.has [] "platform")

/-- The platform block set must be the one platform names. -/
def blockRule : Expr :=
  .or (.not (.has [] "platform"))
    (.cond (.eq (.field ["platform"]) (.text "darwin"))
      (.not (.has [] "linux")) (.not (.has [] "darwin")))

/-- An applied or clamped policy is the policy in force: `inForce` must name the same name
and resourceVersion. -/
def inForceRule : Expr :=
  .or (.or (.not (.has [] "policy")) (.eq (.field ["policy", "outcome"]) (.text "rejected")))
    (.and
      (.and (.has [] "inForce") (.eq (.field ["inForce", "name"]) (.field ["policy", "name"])))
      (.cond (.has ["inForce"] "resourceVersion")
        (.and (.has ["policy"] "resourceVersion")
          (.eq (.field ["inForce", "resourceVersion"]) (.field ["policy", "resourceVersion"])))
        (.not (.has ["policy"] "resourceVersion"))))

/-- The schema of a status. -/
def NodeBudgetStatus.schema : Schema :=
  .object [] (
    .property "observedAt" dateTime <|
    .property "producerGeneration" (int64From 0) <|
    .property "platform" (enumOf ["darwin", "linux"]) <|
    .property "level" (enumOf ["ok", "warn", "critical", "evicting"]) <|
    .property "admit" .boolean <|
    .property "admitReasonSignal" (enumOf signalWords) <|
    .property "evictDeadline" dateTime <|
    .property "capacity" BudgetCapacity.schema <|
    .property "signals" (.array 8 (.map ["id"]) BudgetSignal.schema) <|
    .property "recommendation" BudgetRecommendation.schema <|
    .property "killMode" KillMode.schema <|
    .property "wouldKill" WouldKill.schema <|
    .property "counters" (.array 3 (.map ["band"]) BandCounters.schema) <|
    .property "policy" AppliedPolicy.schema <|
    .property "inForce" PolicyRef.schema <|
    .property "writer" BudgetWriter.schema <|
    .property "conditions" (.array 8 (.map ["type"]) Condition.schema) <|
    .property "darwin" DarwinSignals.schema <|
    .property "linux" LinuxSignals.schema <|
    .nil)
    [oneBlockRule, platformRule, blockRule, inForceRule]

end K3smApis.Budget
