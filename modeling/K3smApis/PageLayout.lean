import K3smApis.BudgetTypes
import K3smApis.RowLayout

/-!
# The page layout table

One ordered table gives every page field its kind, size, alignment and getter; the
offsets follow from the order. The source names a field by a string built in loops
over resources, lines and slots, so a name here is a constructor with those loop
variables as arguments, and `text` rebuilds the string.
-/
namespace K3smApis.Budget
open RowLayout

/-- The page ABI constants. -/
def pageABIMajor : ℕ := 1
def pageABIMinor : ℕ := 1
def pageSize : ℕ := 4096
def pageMagic : GoString := lit "K3SMBDGT"
def pageSeqOffset : ℕ := 64
def pageNotifyEpochOffset : ℕ := 128
def pageHeaderSize : ℕ := 192
def maxPageSignals : ℕ := maxBudgetSignals
def maxPageCounters : ℕ := 3
def maxPageNodeNameBytes : ℕ := 253
def pageNodeNameBytes : ℕ := 256

/-- The sentinel an i64 field holds when the producer could not sample it. -/
def pageAbsent : Int64 := Int64.minValue

/-- `pageAbsentWord` is `PageAbsent` as a page word. -/
def pageAbsentWord : UInt64 := 9223372036854775808

inductive PageKind where
  | bytes | u16 | u32 | u64 | i64
  deriving DecidableEq, Repr

/-- The optional i64 values of the capacity. -/
inductive CapacityField where
  | cpuCapacityMilli | cpuSystemReserveMilli | memCapacityBytes | memSystemReserveBytes
  | memEvictionReserveBytes | memAllocatableBytes | swapTotalBytes | swapUsedBytes
  | cpuPerformanceCores | cpuEfficiencyCores | gpuCount
  deriving DecidableEq, Repr

namespace CapacityField

def get : CapacityField → BudgetCapacity → Option Int64
  | .cpuCapacityMilli, c => c.cpuCapacityMilli
  | .cpuSystemReserveMilli, c => c.cpuSystemReserveMilli
  | .memCapacityBytes, c => c.memCapacityBytes
  | .memSystemReserveBytes, c => c.memSystemReserveBytes
  | .memEvictionReserveBytes, c => c.memEvictionReserveBytes
  | .memAllocatableBytes, c => c.memAllocatableBytes
  | .swapTotalBytes, c => c.swapTotalBytes
  | .swapUsedBytes, c => c.swapUsedBytes
  | .cpuPerformanceCores, c => c.cpuPerformanceCores
  | .cpuEfficiencyCores, c => c.cpuEfficiencyCores
  | .gpuCount, c => c.gpuCount

def text : CapacityField → String
  | .cpuCapacityMilli => "cpuCapacityMilli"
  | .cpuSystemReserveMilli => "cpuSystemReserveMilli"
  | .memCapacityBytes => "memCapacityBytes"
  | .memSystemReserveBytes => "memSystemReserveBytes"
  | .memEvictionReserveBytes => "memEvictionReserveBytes"
  | .memAllocatableBytes => "memAllocatableBytes"
  | .swapTotalBytes => "swapTotalBytes"
  | .swapUsedBytes => "swapUsedBytes"
  | .cpuPerformanceCores => "cpuPerformanceCores"
  | .cpuEfficiencyCores => "cpuEfficiencyCores"
  | .gpuCount => "gpuCount"

end CapacityField

inductive DarwinField where
  | vmPressureLevel | memorystatusLevelPermille | swapinsTotal | swapoutsTotal
  deriving DecidableEq, Repr

namespace DarwinField

def get : DarwinField → DarwinSignals → Option Int64
  | .vmPressureLevel, d => d.vmPressureLevel
  | .memorystatusLevelPermille, d => d.memorystatusLevelPermille
  | .swapinsTotal, d => d.swapinsTotal
  | .swapoutsTotal, d => d.swapoutsTotal

def text : DarwinField → String
  | .vmPressureLevel => "vmPressureLevel"
  | .memorystatusLevelPermille => "memorystatusLevelPermille"
  | .swapinsTotal => "swapinsTotal"
  | .swapoutsTotal => "swapoutsTotal"

end DarwinField

inductive CompressorField where
  | bytesUsed | bytesStored | segmentLimitBytes
  deriving DecidableEq, Repr

namespace CompressorField

def get : CompressorField → DarwinCompressor → Option Int64
  | .bytesUsed, c => c.bytesUsed
  | .bytesStored, c => c.bytesStored
  | .segmentLimitBytes, c => c.segmentLimitBytes

def text : CompressorField → String
  | .bytesUsed => "bytesUsed"
  | .bytesStored => "bytesStored"
  | .segmentLimitBytes => "segmentLimitBytes"

end CompressorField

inductive PSIResourceName where
  | cpu | memory | io
  deriving DecidableEq, Repr

namespace PSIResourceName

def get : PSIResourceName → LinuxPSI → Option PSIResource
  | .cpu, p => p.cpu
  | .memory, p => p.memory
  | .io, p => p.io

def text : PSIResourceName → String
  | .cpu => "cpu"
  | .memory => "memory"
  | .io => "io"

end PSIResourceName

inductive PSILineName where
  | some_ | full
  deriving DecidableEq, Repr

namespace PSILineName

def get : PSILineName → PSIResource → Option PSILine
  | .some_, r => r.some_
  | .full, r => r.full

def text : PSILineName → String
  | .some_ => "some"
  | .full => "full"

end PSILineName

inductive PSIValue where
  | avg10Permille | avg60Permille | totalUs
  deriving DecidableEq, Repr

namespace PSIValue

def get : PSIValue → PSILine → Option Int64
  | .avg10Permille, l => l.avg10Permille
  | .avg60Permille, l => l.avg60Permille
  | .totalUs, l => l.totalUs

def text : PSIValue → String
  | .avg10Permille => "avg10Permille"
  | .avg60Permille => "avg60Permille"
  | .totalUs => "totalUs"

end PSIValue

inductive MemoryEvent where
  | high | max | oom | oomKill
  deriving DecidableEq, Repr

namespace MemoryEvent

def get : MemoryEvent → LinuxMemoryEvents → Option Int64
  | .high, e => e.high
  | .max, e => e.max
  | .oom, e => e.oom
  | .oomKill, e => e.oomKill

def text : MemoryEvent → String
  | .high => "high"
  | .max => "max"
  | .oom => "oom"
  | .oomKill => "oomKill"

end MemoryEvent

/-- The i64 values of a signal slot. -/
inductive SignalValue where
  | value
  | warnThreshold | admitStopThreshold | criticalThreshold
  | evictSoftThreshold | evictHardThreshold
  | warnRelease | admitStopRelease | criticalRelease
  | evictSoftRelease | evictHardRelease
  | graceSeconds | minReclaimBytes | windowSeconds | etaToNextRungSeconds
  deriving DecidableEq, Repr

namespace SignalValue

def get : SignalValue → BudgetSignal → Option Int64
  | .value, g => g.value
  | .warnThreshold, g => g.warnThreshold
  | .admitStopThreshold, g => g.admitStopThreshold
  | .criticalThreshold, g => g.criticalThreshold
  | .evictSoftThreshold, g => g.evictSoftThreshold
  | .evictHardThreshold, g => g.evictHardThreshold
  | .warnRelease, g => g.warnRelease
  | .admitStopRelease, g => g.admitStopRelease
  | .criticalRelease, g => g.criticalRelease
  | .evictSoftRelease, g => g.evictSoftRelease
  | .evictHardRelease, g => g.evictHardRelease
  | .graceSeconds, g => g.graceSeconds
  | .minReclaimBytes, g => g.minReclaimBytes
  | .windowSeconds, g => g.windowSeconds
  | .etaToNextRungSeconds, g => g.etaToNextRungSeconds

def text : SignalValue → String
  | .value => "value"
  | .warnThreshold => "warnThreshold"
  | .admitStopThreshold => "admitStopThreshold"
  | .criticalThreshold => "criticalThreshold"
  | .evictSoftThreshold => "evictSoftThreshold"
  | .evictHardThreshold => "evictHardThreshold"
  | .warnRelease => "warnRelease"
  | .admitStopRelease => "admitStopRelease"
  | .criticalRelease => "criticalRelease"
  | .evictSoftRelease => "evictSoftRelease"
  | .evictHardRelease => "evictHardRelease"
  | .graceSeconds => "graceSeconds"
  | .minReclaimBytes => "minReclaimBytes"
  | .windowSeconds => "windowSeconds"
  | .etaToNextRungSeconds => "etaToNextRungSeconds"

/-- The values of a slot in layout order. -/
def all : List SignalValue :=
  [.value, .warnThreshold, .admitStopThreshold, .criticalThreshold, .evictSoftThreshold,
    .evictHardThreshold, .warnRelease, .admitStopRelease, .criticalRelease,
    .evictSoftRelease, .evictHardRelease, .graceSeconds, .minReclaimBytes, .windowSeconds,
    .etaToNextRungSeconds]

end SignalValue

/-- The monotonic totals of a counter slot. -/
inductive CounterTotal where
  | evictionsTotal | oomKillsTotal | kernelKillsTotal | restartsTotal
  | memHighEventsTotal | tier1RefusedTotal
  deriving DecidableEq, Repr

namespace CounterTotal

def get : CounterTotal → PageBandCounters → Int64
  | .evictionsTotal, c => c.evictionsTotal
  | .oomKillsTotal, c => c.oomKillsTotal
  | .kernelKillsTotal, c => c.kernelKillsTotal
  | .restartsTotal, c => c.restartsTotal
  | .memHighEventsTotal, c => c.memHighEventsTotal
  | .tier1RefusedTotal, c => c.tier1RefusedTotal

def text : CounterTotal → String
  | .evictionsTotal => "evictionsTotal"
  | .oomKillsTotal => "oomKillsTotal"
  | .kernelKillsTotal => "kernelKillsTotal"
  | .restartsTotal => "restartsTotal"
  | .memHighEventsTotal => "memHighEventsTotal"
  | .tier1RefusedTotal => "tier1RefusedTotal"

end CounterTotal

/-- The name of one page field. -/
inductive PageFieldName where
  | magic | abiMajor | abiMinor | headerSize | bodySize | seq | notifyEpoch
  | generation | writerPeriodSeconds | observedAt | platform | nodeNameLen | nodeName
  | capacity (c : CapacityField)
  | gpuPresent
  | level
  | darwin (d : DarwinField)
  | compressor (c : CompressorField)
  | psi (r : PSIResourceName) (l : PSILineName) (v : PSIValue)
  | memoryEvents (e : MemoryEvent)
  | signalId (i : Fin maxPageSignals)
  | signalUnit (i : Fin maxPageSignals)
  | signal (i : Fin maxPageSignals) (v : SignalValue)
  | signalTrend (i : Fin maxPageSignals)
  | signalLimitingResource (i : Fin maxPageSignals)
  | signalSharedWith (i : Fin maxPageSignals)
  | admits | admitReasonSignal | evictDeadline
  | killModeMode | killModeArmed | killModeArmingEpisodes | killModeReason
  | safeAdditionalBytes | basis
  | counterBand (i : Fin maxPageCounters)
  | counter (i : Fin maxPageCounters) (t : CounterTotal)
  deriving DecidableEq, Repr

namespace PageFieldName

/-- The layout name, mirroring the status JSON path. -/
def text : PageFieldName → String
  | .magic => "magic"
  | .abiMajor => "abiMajor"
  | .abiMinor => "abiMinor"
  | .headerSize => "headerSize"
  | .bodySize => "bodySize"
  | .seq => "seq"
  | .notifyEpoch => "notifyEpoch"
  | .generation => "generation"
  | .writerPeriodSeconds => "writerPeriodSeconds"
  | .observedAt => "observedAt"
  | .platform => "platform"
  | .nodeNameLen => "nodeNameLen"
  | .nodeName => "nodeName"
  | .capacity c => "capacity." ++ c.text
  | .gpuPresent => "capacity.gpuPresent"
  | .level => "level"
  | .darwin d => "darwin." ++ d.text
  | .compressor c => "darwin.compressor." ++ c.text
  | .psi r l v => "linux.psi." ++ r.text ++ "." ++ l.text ++ "." ++ v.text
  | .memoryEvents e => "linux.memoryEvents." ++ e.text
  | .signalId i => "signals[" ++ toString i.val ++ "].id"
  | .signalUnit i => "signals[" ++ toString i.val ++ "].unit"
  | .signal i v => "signals[" ++ toString i.val ++ "]." ++ v.text
  | .signalTrend i => "signals[" ++ toString i.val ++ "].trend"
  | .signalLimitingResource i => "signals[" ++ toString i.val ++ "].limitingResource"
  | .signalSharedWith i => "signals[" ++ toString i.val ++ "].sharedWith"
  | .admits => "admit"
  | .admitReasonSignal => "admitReasonSignal"
  | .evictDeadline => "evictDeadline"
  | .killModeMode => "killMode.mode"
  | .killModeArmed => "killMode.armed"
  | .killModeArmingEpisodes => "killMode.armingEpisodes"
  | .killModeReason => "killMode.reason"
  | .safeAdditionalBytes => "recommendation.safeAdditionalBytes"
  | .basis => "recommendation.basis"
  | .counterBand i => "counters[" ++ toString i.val ++ "].band"
  | .counter i t => "counters[" ++ toString i.val ++ "]." ++ t.text

/-- The fields of one signal slot in layout order. -/
def signalSlot (i : Fin maxPageSignals) : List PageFieldName :=
  .signalId i :: .signalUnit i :: (SignalValue.all.map (PageFieldName.signal i) ++
    [.signalTrend i, .signalLimitingResource i, .signalSharedWith i])

/-- The fields of one counter slot in layout order. -/
def counterSlot (i : Fin maxPageCounters) : List PageFieldName :=
  .counterBand i :: List.map (PageFieldName.counter i)
    [.evictionsTotal, .oomKillsTotal, .kernelKillsTotal, .restartsTotal, .memHighEventsTotal,
      .tier1RefusedTotal]

/-- The header line, the seqlock word and the notify word. -/
def headerNames : List PageFieldName :=
  [.magic, .abiMajor, .abiMinor, .headerSize, .bodySize, .seq, .notifyEpoch]

/-- The identity fields, which open the body. -/
def identityNames : List PageFieldName :=
  [.generation, .writerPeriodSeconds, .observedAt, .platform, .nodeNameLen, .nodeName]

def capacityNames : List PageFieldName :=
  List.map PageFieldName.capacity
    [.cpuCapacityMilli, .cpuSystemReserveMilli, .memCapacityBytes, .memSystemReserveBytes,
      .memEvictionReserveBytes, .memAllocatableBytes, .swapTotalBytes, .swapUsedBytes]

def darwinNames : List PageFieldName :=
  [.darwin .vmPressureLevel, .darwin .memorystatusLevelPermille, .compressor .bytesUsed,
    .compressor .bytesStored, .compressor .segmentLimitBytes, .darwin .swapinsTotal,
    .darwin .swapoutsTotal]

/-- The three values of each line of each resource. -/
def psiNames : List PageFieldName :=
  List.flatMap (fun r => List.flatMap (fun l =>
      List.map (PageFieldName.psi r l) [.avg10Permille, .avg60Permille, .totalUs])
    [PSILineName.some_, PSILineName.full])
    [PSIResourceName.cpu, PSIResourceName.memory, PSIResourceName.io]

def memoryEventNames : List PageFieldName :=
  List.map PageFieldName.memoryEvents [.high, .max, .oom, .oomKill]

/-- The body up to the first slot array. -/
def scalarNames : List PageFieldName :=
  identityNames ++ capacityNames ++ .level :: darwinNames ++ psiNames ++ memoryEventNames

/-- The body between the slot arrays. -/
def actionNames : List PageFieldName :=
  [.admits, .admitReasonSignal, .evictDeadline, .killModeMode, .killModeArmed,
    .killModeArmingEpisodes, .killModeReason, .safeAdditionalBytes, .basis]

/-- The fields minor 1 appends. -/
def minor1Names : List PageFieldName :=
  [.capacity .cpuPerformanceCores, .capacity .cpuEfficiencyCores, .gpuPresent,
    .capacity .gpuCount]

/-- Every field name in layout order. -/
def all : List PageFieldName :=
  headerNames ++ scalarNames ++ (List.finRange maxPageSignals).flatMap signalSlot ++
    actionNames ++ (List.finRange maxPageCounters).flatMap counterSlot ++ minor1Names

end PageFieldName

/-- A field's 8-byte word, or narrower value, for a snapshot, and whether the field
can carry the snapshot's value. -/
abbrev PageGetter := PageSnapshot → UInt64 × Bool

def constGet (v : UInt64) : PageGetter := fun _ => (v, true)

/-- One row of the layout table. `align` 0 is the natural alignment of the kind. The
source leaves the getter of magic, nodeName and bodySize nil and never calls it. -/
structure PageField where
  name : PageFieldName
  kind : PageKind
  size : ℕ := 8
  align : ℕ := 0
  absent : Bool := false
  get : PageGetter := constGet 0
  offset : ℕ := 0

/-- An optional i64 as a word: nil is `PageAbsent`, and a present value equal to the
sentinel cannot be carried. -/
def i64Word : Option Int64 → UInt64 × Bool
  | none => (pageAbsentWord, true)
  | some v => (v.toUInt64, v ≠ pageAbsent)

def boolWord (b : Bool) : UInt64 × Bool := (if b then 1 else 0, true)

/-- An optional signal reference: empty is code 0. -/
def signalRefWord (s : Wire SignalID) : UInt64 × Bool :=
  (pageCodeOf s, s = default ∨ pageCodeOf s ≠ 0)

/-- `opt`: a row for an optional i64. -/
def optRow (name : PageFieldName) (get : PageSnapshot → Option Int64) : PageField :=
  { name, kind := .i64, absent := true, get := fun s => i64Word (get s) }

/-- `code`: a row for an enum code. -/
def codeRow (name : PageFieldName) (get : PageGetter) : PageField :=
  { name, kind := .u64, get }

/-- The signal in slot `i`, nil when the slot is empty. -/
def signalAt (s : PageSnapshot) (i : Fin maxPageSignals) : Option BudgetSignal :=
  s.signals.list[i.val]?

/-- The counters in slot `i`, nil when the slot is empty. -/
def counterAt (s : PageSnapshot) (i : Fin maxPageCounters) : Option PageBandCounters :=
  s.counters.list[i.val]?

/-- A slot's word: an empty slot is all zero bytes. -/
def slotWord {α : Type} (get : α → UInt64 × Bool) : Option α → UInt64 × Bool
  | some a => get a
  | none => (0, true)

/-- The row of a name, before its offset is known. -/
def pageFieldSpec (name : PageFieldName) : PageField :=
  match name with
  | .magic => { name, kind := .bytes, size := pageMagic.length }
  | .abiMajor => { name, kind := .u16, size := 2, get := constGet pageABIMajor.toUInt64 }
  | .abiMinor => { name, kind := .u16, size := 2, get := constGet pageABIMinor.toUInt64 }
  | .headerSize =>
    { name, kind := .u32, size := 4, get := constGet pageHeaderSize.toUInt64 }
  -- bodySize derives from the table itself, so the encoder writes it
  | .bodySize => { name, kind := .u32, size := 4 }
  | .seq => { name, kind := .u64, align := 64, get := constGet 0 }
  | .notifyEpoch => { name, kind := .u64, align := 64, get := constGet 0 }
  | .generation =>
    { name, kind := .i64, align := 64, get := fun s => (s.generation.toUInt64, true) }
  | .writerPeriodSeconds =>
    { name, kind := .i64, get := fun s => (s.writerPeriodSeconds.toUInt64, true) }
  | .observedAt =>
    { name, kind := .i64,
      get := fun s => (s.observedAt.unix.toUInt64, !s.observedAt.isZero) }
  | .platform => codeRow name (fun s => pageCode pagePlatformCodes s.platform default)
  | .nodeNameLen =>
    { name, kind := .u64, get := fun s => (s.nodeName.length.toUInt64, true) }
  | .nodeName => { name, kind := .bytes, size := pageNodeNameBytes }
  | .capacity c => optRow name (fun s => c.get s.capacity)
  | .gpuPresent =>
    { name, kind := .i64, absent := true,
      get := fun s => match s.capacity.gpuPresent with
        | none => (pageAbsentWord, true)
        | some b => boolWord b }
  | .level => codeRow name (fun s => pageCode pageLevelCodes s.level default)
  | .darwin d => optRow name (fun s => s.darwin.bind d.get)
  | .compressor c => optRow name (fun s => (s.darwin.bind (·.compressor)).bind c.get)
  | .psi r l v => optRow name (fun s =>
      (((s.linux.bind (·.psi)).bind r.get).bind l.get).bind v.get)
  | .memoryEvents e => optRow name (fun s => (s.linux.bind (·.memoryEvents)).bind e.get)
  | .signalId i => codeRow name (fun s =>
      slotWord (fun g => (pageCodeOf g.id, pageCodeOf g.id ≠ 0)) (signalAt s i))
  | .signalUnit i => codeRow name (fun s =>
      slotWord (fun g =>
        let c := pageCode pageUnitCodes g.unit default
        (c.1, c.2 && c.1 ≠ 0 && g.unit = unitOf g.id)) (signalAt s i))
  | .signal i v =>
    { name, kind := .i64, absent := true,
      get := fun s => slotWord (fun g => i64Word (v.get g)) (signalAt s i) }
  | .signalTrend i => codeRow name (fun s =>
      slotWord (fun g => pageCode pageTrendCodes g.trend (word .unknown)) (signalAt s i))
  | .signalLimitingResource i => codeRow name (fun s =>
      slotWord (fun g => pageCode pageLimitingResourceCodes g.limitingResource (word .unknown))
        (signalAt s i))
  | .signalSharedWith i => codeRow name (fun s =>
      slotWord (fun g => signalRefWord g.sharedWith) (signalAt s i))
  | .admits => { name, kind := .u64, get := fun s => boolWord s.admits }
  | .admitReasonSignal => codeRow name (fun s => signalRefWord s.admitReasonSignal)
  | .evictDeadline =>
    { name, kind := .i64, absent := true,
      get := fun s => match s.evictDeadline with
        | none => (pageAbsentWord, true)
        | some t => (t.unix.toUInt64, !t.isZero) }
  | .killModeMode => codeRow name (fun s => pageCode pageKillModeCodes s.killMode.mode default)
  | .killModeArmed => { name, kind := .u64, get := fun s => boolWord s.killMode.armed }
  | .killModeArmingEpisodes =>
    { name, kind := .i64,
      get := fun s =>
        (s.killMode.armingEpisodes.toInt64.toUInt64, 0 ≤ s.killMode.armingEpisodes) }
  | .killModeReason => codeRow name (fun s =>
      pageCode pageKillModeReasonCodes s.killMode.reason (word .unknown))
  | .safeAdditionalBytes => optRow name (fun s => s.recommendation.safeAdditionalBytes)
  | .basis => codeRow name (fun s => signalRefWord s.recommendation.basis)
  | .counterBand i => codeRow name (fun s =>
      slotWord (fun c =>
        let code := pageCode pageBandCodes c.band default
        (code.1, code.2 && code.1 ≠ 0)) (counterAt s i))
  | .counter i t =>
    { name, kind := .i64,
      get := fun s => slotWord (fun c => ((t.get c).toUInt64, 0 ≤ t.get c))
        (counterAt s i) }

/-- `pageFieldSpecs`: the layout in order. -/
def pageFieldSpecs : List PageField := PageFieldName.all.map pageFieldSpec

/-- The alignment a row asks for, or the natural one of its kind. -/
def PageKind.alignment (kind : PageKind) (align : ℕ) : ℕ :=
  if align = 0 then
    match kind with
    | .u16 => 2
    | .u32 => 4
    | _ => 8
  else align

theorem PageKind.alignment_pos (kind : PageKind) (align : ℕ) : 0 < kind.alignment align := by
  unfold PageKind.alignment
  split_ifs with h
  · cases kind <;> simp
  · omega

instance : Row PageField where
  size := PageField.size
  alignment f := f.kind.alignment f.align
  offset := PageField.offset
  moved f off := { f with offset := off }
  alignment_pos f := f.kind.alignment_pos f.align
  size_moved _ _ := rfl
  alignment_moved _ _ := rfl
  offset_moved _ _ := rfl

/-- `buildPageLayout`: the rows at their offsets, and the offset one past the last. -/
def buildPageLayout (specs : List PageField) : List PageField × ℕ := placeFrom 0 specs

def pageLayout : List PageField := (buildPageLayout pageFieldSpecs).1

/-- The offset one past the last field. -/
def pageBodyEnd : ℕ := (buildPageLayout pageFieldSpecs).2

/-- The `bodySize` header value of this minor. -/
def pageBodySize : ℕ := pageBodyEnd - pageHeaderSize

/-- The offset of the named field; the source panics on a name the table lacks. -/
def pageOffset (name : PageFieldName) : ℕ :=
  match pageLayout.find? (fun f => f.name = name) with
  | some f => f.offset
  | none => 0

theorem pageLayout_placed : Placed 0 pageFieldSpecs pageLayout pageBodyEnd :=
  placeFrom_spec 0 pageFieldSpecs

@[simp] theorem pageFieldSpec_name (n : PageFieldName) : (pageFieldSpec n).name = n := by
  cases n <;> rfl

theorem PageFieldName.mem_all (n : PageFieldName) : n ∈ PageFieldName.all := by
  cases n with
  | capacity c => cases c <;> decide
  | darwin d => cases d <;> decide
  | compressor c => cases c <;> decide
  | psi r l v => cases r <;> cases l <;> cases v <;> decide
  | memoryEvents e => cases e <;> decide
  | signal i v =>
    simp only [all, List.mem_append, List.mem_flatMap]
    refine .inl (.inl (.inl (.inr ⟨i, List.mem_finRange i, ?_⟩)))
    cases v <;> simp [signalSlot, SignalValue.all]
  | signalId i | signalUnit i | signalTrend i | signalLimitingResource i | signalSharedWith i =>
    simp only [all, List.mem_append, List.mem_flatMap]
    exact .inl (.inl (.inl (.inr ⟨i, List.mem_finRange i, by simp [signalSlot]⟩)))
  | counterBand i =>
    simp only [all, List.mem_append, List.mem_flatMap]
    exact .inl (.inr ⟨i, List.mem_finRange i, by simp [counterSlot]⟩)
  | counter i t =>
    simp only [all, List.mem_append, List.mem_flatMap]
    refine .inl (.inr ⟨i, List.mem_finRange i, ?_⟩)
    cases t <;> simp [counterSlot]
  | _ => simp [all, headerNames, scalarNames, identityNames, actionNames, minor1Names]

/-- Every row of the layout is the row of its name, at some offset. -/
theorem pageLayout_row {g : PageField} (hg : g ∈ pageLayout) :
    g = { pageFieldSpec g.name with offset := g.offset } := by
  obtain ⟨f, hf, hr⟩ := pageLayout_placed.exists_spec hg
  obtain ⟨n, _, rfl⟩ := List.mem_map.mp hf
  have hn : g.name = n := by rw [hr]; exact pageFieldSpec_name n
  rw [hn]
  exact hr

/-- Every name has its row in the layout, at `pageOffset`. -/
theorem pageLayout_mem (n : PageFieldName) :
    { pageFieldSpec n with offset := pageOffset n } ∈ pageLayout := by
  obtain ⟨g, hg, hr⟩ :=
    pageLayout_placed.exists_placed (List.mem_map_of_mem (PageFieldName.mem_all n))
  have hgn : g.name = n := by rw [hr]; exact pageFieldSpec_name n
  obtain ⟨f, hf⟩ : ∃ f, pageLayout.find? (fun f => f.name = n) = some f := by
    rw [← Option.isSome_iff_exists, List.find?_isSome]
    exact ⟨g, hg, by simp [hgn]⟩
  have hmem := List.mem_of_find?_eq_some hf
  have hname : f.name = n := by simpa using List.find?_some hf
  have hoff : pageOffset n = f.offset := by simp [pageOffset, hf]
  have hrow := pageLayout_row hmem
  rw [hname] at hrow
  rw [hoff, ← hrow]
  exact hmem

-- the table is looked at through the lemmas above, or evaluated by the kernel
attribute [irreducible] pageLayout pageBodyEnd

end K3smApis.Budget
