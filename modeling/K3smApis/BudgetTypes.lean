import K3smApis.BudgetVocabulary

/-!
# The records of the budget contract

The structures follow the Go structs field by field. A Go pointer is an `Option`;
a slice is an `Option` of a list, because nil and an empty slice are different Go
values that encode alike. Every default below is the Go zero value.
-/
namespace K3smApis.Budget

/-- A Go slice: `none` is nil. -/
abbrev Slice (α : Type) := Option (List α)

/-- The elements a loop over the slice visits. -/
def Slice.list {α : Type} (s : Slice α) : List α := s.getD []

@[simp] theorem Slice.list_none {α : Type} : Slice.list (none : Slice α) = [] := rfl
@[simp] theorem Slice.list_some {α : Type} (l : List α) : Slice.list (some l) = l := rfl

theorem Slice.list_map {α β : Type} (f : α → β) (s : Slice α) :
    Slice.list (s.map (List.map f)) = s.list.map f := by
  cases s <;> rfl

/-- Where a time value says it was read; it does not change the instant. -/
inductive Location where
  | utc
  | localTime
  | zone (name : GoString)
  deriving DecidableEq, Repr

/-- `metav1.Time`, a `time.Time`: an instant as Unix seconds and nanoseconds (the
seconds wrap as Go's do), and a location. -/
structure Time where
  sec : Int64
  nsec : Fin 1000000000
  loc : Location
  deriving DecidableEq, Repr

namespace Time

/-- Unix seconds of 1 January of year 1, 00:00:00 UTC: Go's zero time. -/
def zeroSec : Int64 := -62135596800

/-- The zero value of a time. -/
def zero : Time := ⟨zeroSec, 0, .utc⟩

instance : Inhabited Time := ⟨zero⟩

def isZero (t : Time) : Bool := t.sec = zeroSec ∧ t.nsec = 0

/-- `Unix()`: the seconds, cutting the fraction. -/
def unix (t : Time) : Int64 := t.sec

/-- `metav1.NewTime(time.Unix(sec, 0).UTC())`. -/
def ofUnix (sec : Int64) : Time := ⟨sec, 0, .utc⟩

/-- `metav1.Unix(sec, 0)`. -/
def ofUnixLocal (sec : Int64) : Time := ⟨sec, 0, .localTime⟩

/-- A time cut to whole seconds, in UTC. -/
def wholeSeconds (t : Time) : Time := ofUnix t.unix

@[simp] theorem unix_wholeSeconds (t : Time) : t.wholeSeconds.unix = t.unix := rfl

end Time

/-- The bounds a NodeBudget's schema and validation share. -/
def maxBudgetSignals : ℕ := 8
def maxClampedFields : ℕ := 8
def maxPolicyResourceVersionBytes : ℕ := 64
def maxWindowCounts : ℕ := 12

structure BudgetCapacity where
  cpuCapacityMilli : Option Int64 := none
  cpuSystemReserveMilli : Option Int64 := none
  memCapacityBytes : Option Int64 := none
  memSystemReserveBytes : Option Int64 := none
  memEvictionReserveBytes : Option Int64 := none
  memAllocatableBytes : Option Int64 := none
  swapTotalBytes : Option Int64 := none
  swapUsedBytes : Option Int64 := none
  cpuPerformanceCores : Option Int64 := none
  cpuEfficiencyCores : Option Int64 := none
  gpuPresent : Option Bool := none
  gpuCount : Option Int64 := none
  deriving DecidableEq, Repr, Inhabited

/-- One signal record: a reading, a five-rung ladder and its releases. -/
structure BudgetSignal where
  id : Wire SignalID := default
  unit : Wire SignalUnit := default
  value : Option Int64 := none
  warnThreshold : Option Int64 := none
  admitStopThreshold : Option Int64 := none
  criticalThreshold : Option Int64 := none
  evictSoftThreshold : Option Int64 := none
  evictHardThreshold : Option Int64 := none
  warnRelease : Option Int64 := none
  admitStopRelease : Option Int64 := none
  criticalRelease : Option Int64 := none
  evictSoftRelease : Option Int64 := none
  evictHardRelease : Option Int64 := none
  graceSeconds : Option Int64 := none
  minReclaimBytes : Option Int64 := none
  windowSeconds : Option Int64 := none
  etaToNextRungSeconds : Option Int64 := none
  trend : Wire Trend := default
  limitingResource : Wire LimitingResource := default
  sharedWith : Wire SignalID := default
  deriving DecidableEq, Repr, Inhabited

/-- The record's rungs in ladder order. -/
def BudgetSignal.rungs (s : BudgetSignal) : List (Option Int64) :=
  [s.warnThreshold, s.admitStopThreshold, s.criticalThreshold, s.evictSoftThreshold,
    s.evictHardThreshold]

/-- The record's releases in ladder order. -/
def BudgetSignal.releases (s : BudgetSignal) : List (Option Int64) :=
  [s.warnRelease, s.admitStopRelease, s.criticalRelease, s.evictSoftRelease,
    s.evictHardRelease]

structure BudgetRecommendation where
  safeAdditionalBytes : Option Int64 := none
  basis : Wire SignalID := default
  deriving DecidableEq, Repr, Inhabited

structure KillMode where
  mode : Wire KillModeName := default
  armed : Bool := false
  armingEpisodes : Int32 := 0
  reason : Wire KillModeReason := default
  deriving DecidableEq, Repr, Inhabited

structure WouldKill where
  band : Wire Band := default
  reason : Wire WouldKillReason := default
  at_ : Time := default
  deriving DecidableEq, Repr, Inhabited

structure WindowCount where
  window : Wire CounterWindow := default
  reason : Wire CounterReason := default
  count : Int64 := 0
  deriving DecidableEq, Repr, Inhabited

structure BandCounters where
  band : Wire Band := default
  evictionsTotal : Int64 := 0
  oomKillsTotal : Int64 := 0
  kernelKillsTotal : Int64 := 0
  restartsTotal : Int64 := 0
  memHighEventsTotal : Int64 := 0
  tier1RefusedTotal : Int64 := 0
  windows : Slice WindowCount := none
  deriving DecidableEq, Repr, Inhabited

structure PolicyRef where
  name : GoString := []
  resourceVersion : GoString := []
  deriving DecidableEq, Repr, Inhabited

/-- `AppliedPolicy` embeds its `PolicyRef`. -/
structure AppliedPolicy where
  ref : PolicyRef := {}
  outcome : Wire PolicyOutcome := default
  clampedFields : Slice (Wire PolicyField) := none
  deriving DecidableEq, Repr, Inhabited

structure DarwinCompressor where
  bytesUsed : Option Int64 := none
  bytesStored : Option Int64 := none
  segmentLimitBytes : Option Int64 := none
  deriving DecidableEq, Repr, Inhabited

structure DarwinSignals where
  vmPressureLevel : Option Int64 := none
  memorystatusLevelPermille : Option Int64 := none
  compressor : Option DarwinCompressor := none
  swapinsTotal : Option Int64 := none
  swapoutsTotal : Option Int64 := none
  deriving DecidableEq, Repr, Inhabited

structure PSILine where
  avg10Permille : Option Int64 := none
  avg60Permille : Option Int64 := none
  totalUs : Option Int64 := none
  deriving DecidableEq, Repr, Inhabited

structure PSIResource where
  some_ : Option PSILine := none
  full : Option PSILine := none
  deriving DecidableEq, Repr, Inhabited

structure LinuxPSI where
  cpu : Option PSIResource := none
  memory : Option PSIResource := none
  io : Option PSIResource := none
  deriving DecidableEq, Repr, Inhabited

structure LinuxMemoryEvents where
  high : Option Int64 := none
  max : Option Int64 := none
  oom : Option Int64 := none
  oomKill : Option Int64 := none
  deriving DecidableEq, Repr, Inhabited

structure LinuxSignals where
  psi : Option LinuxPSI := none
  memoryEvents : Option LinuxMemoryEvents := none
  deriving DecidableEq, Repr, Inhabited

/-- What a node observes about itself. -/
structure NodeBudgetObservation where
  observedAt : Time := default
  producerGeneration : Int64 := 0
  platform : Wire Platform := default
  level : Wire Level := default
  admits : Bool := false
  admitReasonSignal : Wire SignalID := default
  evictDeadline : Option Time := none
  capacity : BudgetCapacity := {}
  signals : Slice BudgetSignal := none
  recommendation : BudgetRecommendation := {}
  killMode : KillMode := {}
  wouldKill : Option WouldKill := none
  counters : Slice BandCounters := none
  policy : Option AppliedPolicy := none
  inForce : Option PolicyRef := none
  darwin : Option DarwinSignals := none
  linux : Option LinuxSignals := none
  deriving DecidableEq, Repr, Inhabited

/-- `BandCounters` without the windowed counts, as the page carries them. -/
structure PageBandCounters where
  band : Wire Band := default
  evictionsTotal : Int64 := 0
  oomKillsTotal : Int64 := 0
  kernelKillsTotal : Int64 := 0
  restartsTotal : Int64 := 0
  memHighEventsTotal : Int64 := 0
  tier1RefusedTotal : Int64 := 0
  deriving DecidableEq, Repr, Inhabited

/-- What one page publication carries. -/
structure PageSnapshot where
  generation : Int64 := 0
  writerPeriodSeconds : Int64 := 0
  nodeName : GoString := []
  observedAt : Time := default
  platform : Wire Platform := default
  capacity : BudgetCapacity := {}
  level : Wire Level := default
  darwin : Option DarwinSignals := none
  linux : Option LinuxSignals := none
  signals : Slice BudgetSignal := none
  admits : Bool := false
  admitReasonSignal : Wire SignalID := default
  evictDeadline : Option Time := none
  killMode : KillMode := {}
  recommendation : BudgetRecommendation := {}
  counters : Slice PageBandCounters := none
  deriving DecidableEq, Repr, Inhabited

/-- The counters of one band without their windows. -/
def BandCounters.forPage (c : BandCounters) : PageBandCounters where
  band := c.band
  evictionsTotal := c.evictionsTotal
  oomKillsTotal := c.oomKillsTotal
  kernelKillsTotal := c.kernelKillsTotal
  restartsTotal := c.restartsTotal
  memHighEventsTotal := c.memHighEventsTotal
  tier1RefusedTotal := c.tier1RefusedTotal

/-- A slice grown from nil by `append`: nil while nothing was appended. -/
def appended {α : Type} (l : List α) : Slice α := if l.isEmpty then none else some l

@[simp] theorem appended_list {α : Type} (l : List α) : (appended l).list = l := by
  cases l <;> rfl

/-- The page snapshot of an observation. -/
def newPageSnapshot (nodeName : GoString) (writerPeriodSeconds : Int64)
    (o : NodeBudgetObservation) : PageSnapshot where
  generation := o.producerGeneration
  writerPeriodSeconds := writerPeriodSeconds
  nodeName := nodeName
  observedAt := o.observedAt
  platform := o.platform
  capacity := o.capacity
  level := o.level
  darwin := o.darwin
  linux := o.linux
  signals := appended o.signals.list
  admits := o.admits
  admitReasonSignal := o.admitReasonSignal
  evictDeadline := o.evictDeadline
  killMode := o.killMode
  recommendation := o.recommendation
  counters := appended (o.counters.list.map BandCounters.forPage)

end K3smApis.Budget
