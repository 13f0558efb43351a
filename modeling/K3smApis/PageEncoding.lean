import K3smApis.ByteImage
import K3smApis.PageLayout

/-!
# Encoding and reading the page

`encodePage` writes every field of the layout into a zeroed 4096-byte image, in
layout order, and stops at the first field that cannot carry the snapshot's value.
`decodePage` is the reference reader of a static page.
-/
namespace K3smApis.Budget
open ByteImage Check

/-- The sentinels a page error wraps. -/
inductive PageSentinel where
  | invalidPageSnapshot | pageNodeNameTooLong | pageBuffer | pageWriterNotResumed
  deriving DecidableEq, Repr

/-- A page error: what `errors.Is` finds in it, and its detail. -/
structure PageError where
  sentinels : List PageSentinel
  detail : Msg
  deriving DecidableEq, Repr

abbrev Page := Image pageSize

/-- Whether the row can carry the snapshot's value: what its getter reports. The
three rows without a getter always can. -/
def PageField.carries (f : PageField) (s : PageSnapshot) : Bool :=
  match f.name with
  | .magic | .nodeName | .bodySize => true
  | _ => (f.get s).2

/-- The bytes the encoder writes at the row's offset. -/
def PageField.encode (f : PageField) (s : PageSnapshot) : List UInt8 :=
  match f.name with
  | .magic => pageMagic
  | .nodeName => s.nodeName.take f.size
  | .bodySize => leBytes 4 pageBodySize
  | _ =>
    match f.kind with
    | .u16 => leBytes 2 (f.get s).1.toNat
    | .u32 => leBytes 4 (f.get s).1.toNat
    | _ => leBytes 8 (f.get s).1.toNat

/-- `checkPageSnapshot`: what the layout as a whole can carry; each row's getter
checks its own value. -/
def checkPageSnapshot (s : PageSnapshot) : Except PageError Unit := do
  refuseIf (maxPageNodeNameBytes < s.nodeName.length)
    ⟨[.invalidPageSnapshot, .pageNodeNameTooLong],
      [.s "(", .d s.nodeName.length, .s " bytes)"]⟩
  refuseIf (s.nodeName = []) ⟨[.invalidPageSnapshot], [.s "the node name is empty"]⟩
  refuseIf (s.writerPeriodSeconds ≤ 0) ⟨[.invalidPageSnapshot],
    [.s "writer period ", .d s.writerPeriodSeconds.toInt, .s " s, want at least 1"]⟩
  refuseIf (s.platform.valid = false) ⟨[.invalidPageSnapshot],
    [.s "platform ", .q s.platform.text, .s " is not a known platform"]⟩
  refuseIf (s.level.valid = false) ⟨[.invalidPageSnapshot],
    [.s "level ", .q s.level.text, .s " is not a known level"]⟩
  refuseIf (maxPageSignals < s.signals.list.length) ⟨[.invalidPageSnapshot],
    [.d s.signals.list.length, .s " signals, at most ", .d maxPageSignals]⟩
  refuseIf (maxPageCounters < s.counters.list.length) ⟨[.invalidPageSnapshot],
    [.d s.counters.list.length, .s " counter entries, at most ", .d maxPageCounters]⟩
  refuseIf (s.platform = word .darwin ∧ s.darwin = none) ⟨[.invalidPageSnapshot],
    [.s "a darwin page needs the darwin block"]⟩
  refuseIf (s.platform = word .linux ∧ (s.linux = none ∨ s.darwin ≠ none))
    ⟨[.invalidPageSnapshot], [.s "a linux page needs the linux block and no darwin block"]⟩

/-- The page of a snapshot: the fields in layout order over zero bytes. -/
def pageOf (s : PageSnapshot) : Page :=
  putAll zeroImage (pageLayout.map (fun f => ⟨f.offset, f.encode s⟩))

/-- `EncodePage` into a destination of at least `pageSize` bytes. -/
def encodePage (s : PageSnapshot) : Except PageError Page := do
  checkPageSnapshot s
  match pageLayout.find? (fun f => !f.carries s) with
  | some f => .error ⟨[.invalidPageSnapshot],
      [.s f.name.text, .s " cannot carry the snapshot's value"]⟩
  | none => .ok (pageOf s)

/-- `EncodePage` with its destination: a short one is refused, and only the first
`pageSize` bytes of an accepted one change. -/
def encodePageInto (dst : List UInt8) (s : PageSnapshot) : Except PageError (List UInt8) :=
  if dst.length < pageSize then
    .error ⟨[.pageBuffer], [.d dst.length, .s " bytes, want at least ", .d pageSize]⟩
  else (encodePage s).map (fun page => slice page 0 pageSize ++ dst.drop pageSize)

/-- The reader errors, by their contract names. -/
inductive PageErrName where
  | abiMismatch | truncated | corrupt | torn
  deriving DecidableEq, Repr

structure PageReadError where
  name : PageErrName
  detail : Msg
  deriving DecidableEq, Repr

/-- The value a code stands for: 0 is empty, and a code beyond the table reads as
`unknown`, which is empty for a structural table. -/
def codeValue {V : Type} (table : List (Wire V)) (unknown : Wire V) (c : UInt64) : Wire V :=
  if c = 0 then default
  else if c.toNat ≤ table.length then table.getD (c.toNat - 1) default
  else unknown

/-- A block all of whose fields are absent reads as nil. -/
def nonZero {α : Type} [DecidableEq α] [Inhabited α] (a : α) : Option α :=
  if a = default then none else some a

section Reader

variable {n : ℕ} (b : Image n)

/-- A little-endian unsigned integer of `width` bytes. -/
def uintAt (off width : ℕ) : ℕ := leNat (slice b off width)

/-- The 8-byte word of a named field. -/
def fieldWord (name : PageFieldName) : UInt64 := wordAt b (pageOffset name)

def fieldI64 (name : PageFieldName) : Int64 := (fieldWord b name).toInt64

/-- An optional i64: the sentinel reads as nil. -/
def fieldOpt (name : PageFieldName) : Option Int64 :=
  if fieldI64 b name = pageAbsent then none else some (fieldI64 b name)

/-- The value of a named code field. -/
def fieldCode {V : Type} (name : PageFieldName) (table : List (Wire V)) (unknown : Wire V) :
    Wire V :=
  codeValue table unknown (fieldWord b name)

/-- A code beyond its table is reported only where the type has no "unknown". -/
def badCode {V : Type} (name : PageFieldName) (table : List (Wire V)) : Option PageReadError :=
  let c := (fieldWord b name).toNat
  if c ≤ table.length then none
  else some ⟨.abiMismatch, [.s name.text, .s " holds unknown code ", .d c]⟩

def decodeCapacity : BudgetCapacity where
  cpuCapacityMilli := fieldOpt b (.capacity .cpuCapacityMilli)
  cpuSystemReserveMilli := fieldOpt b (.capacity .cpuSystemReserveMilli)
  memCapacityBytes := fieldOpt b (.capacity .memCapacityBytes)
  memSystemReserveBytes := fieldOpt b (.capacity .memSystemReserveBytes)
  memEvictionReserveBytes := fieldOpt b (.capacity .memEvictionReserveBytes)
  memAllocatableBytes := fieldOpt b (.capacity .memAllocatableBytes)
  swapTotalBytes := fieldOpt b (.capacity .swapTotalBytes)
  swapUsedBytes := fieldOpt b (.capacity .swapUsedBytes)
  cpuPerformanceCores := fieldOpt b (.capacity .cpuPerformanceCores)
  cpuEfficiencyCores := fieldOpt b (.capacity .cpuEfficiencyCores)
  gpuPresent := (fieldOpt b .gpuPresent).map (· = 1)
  gpuCount := fieldOpt b (.capacity .gpuCount)

def decodeDarwin : DarwinSignals where
  vmPressureLevel := fieldOpt b (.darwin .vmPressureLevel)
  memorystatusLevelPermille := fieldOpt b (.darwin .memorystatusLevelPermille)
  swapinsTotal := fieldOpt b (.darwin .swapinsTotal)
  swapoutsTotal := fieldOpt b (.darwin .swapoutsTotal)
  compressor := nonZero
    { bytesUsed := fieldOpt b (.compressor .bytesUsed)
      bytesStored := fieldOpt b (.compressor .bytesStored)
      segmentLimitBytes := fieldOpt b (.compressor .segmentLimitBytes) }

def decodeLine (r : PSIResourceName) (l : PSILineName) : PSILine where
  avg10Permille := fieldOpt b (.psi r l .avg10Permille)
  avg60Permille := fieldOpt b (.psi r l .avg60Permille)
  totalUs := fieldOpt b (.psi r l .totalUs)

def decodeResource (r : PSIResourceName) : PSIResource where
  some_ := nonZero (decodeLine b r .some_)
  full := nonZero (decodeLine b r .full)

def decodeLinux : LinuxSignals where
  psi := nonZero
    { cpu := nonZero (decodeResource b .cpu)
      memory := nonZero (decodeResource b .memory)
      io := nonZero (decodeResource b .io) }
  memoryEvents := nonZero
    { high := fieldOpt b (.memoryEvents .high)
      max := fieldOpt b (.memoryEvents .max)
      oom := fieldOpt b (.memoryEvents .oom)
      oomKill := fieldOpt b (.memoryEvents .oomKill) }

def decodeSignal (i : Fin maxPageSignals) : BudgetSignal where
  id := fieldCode b (.signalId i) signalCodes default
  unit := fieldCode b (.signalUnit i) pageUnitCodes default
  value := fieldOpt b (.signal i .value)
  warnThreshold := fieldOpt b (.signal i .warnThreshold)
  admitStopThreshold := fieldOpt b (.signal i .admitStopThreshold)
  criticalThreshold := fieldOpt b (.signal i .criticalThreshold)
  evictSoftThreshold := fieldOpt b (.signal i .evictSoftThreshold)
  evictHardThreshold := fieldOpt b (.signal i .evictHardThreshold)
  warnRelease := fieldOpt b (.signal i .warnRelease)
  admitStopRelease := fieldOpt b (.signal i .admitStopRelease)
  criticalRelease := fieldOpt b (.signal i .criticalRelease)
  evictSoftRelease := fieldOpt b (.signal i .evictSoftRelease)
  evictHardRelease := fieldOpt b (.signal i .evictHardRelease)
  graceSeconds := fieldOpt b (.signal i .graceSeconds)
  minReclaimBytes := fieldOpt b (.signal i .minReclaimBytes)
  windowSeconds := fieldOpt b (.signal i .windowSeconds)
  etaToNextRungSeconds := fieldOpt b (.signal i .etaToNextRungSeconds)
  trend := fieldCode b (.signalTrend i) pageTrendCodes (word .unknown)
  limitingResource :=
    fieldCode b (.signalLimitingResource i) pageLimitingResourceCodes (word .unknown)
  sharedWith := fieldCode b (.signalSharedWith i) signalCodes default

def decodeCounter (i : Fin maxPageCounters) : PageBandCounters where
  band := fieldCode b (.counterBand i) pageBandCodes default
  evictionsTotal := fieldI64 b (.counter i .evictionsTotal)
  oomKillsTotal := fieldI64 b (.counter i .oomKillsTotal)
  kernelKillsTotal := fieldI64 b (.counter i .kernelKillsTotal)
  restartsTotal := fieldI64 b (.counter i .restartsTotal)
  memHighEventsTotal := fieldI64 b (.counter i .memHighEventsTotal)
  tier1RefusedTotal := fieldI64 b (.counter i .tier1RefusedTotal)

/-- The slots a reader takes: those whose leading code is not 0. -/
def signalSlots : List (Fin maxPageSignals) :=
  (List.finRange maxPageSignals).filter (fun i => fieldWord b (.signalId i) ≠ 0)

def counterSlots : List (Fin maxPageCounters) :=
  (List.finRange maxPageCounters).filter (fun i => fieldWord b (.counterBand i) ≠ 0)

def decodePlatform : Wire Platform := fieldCode b .platform pagePlatformCodes default

/-- Every field of the page, read without its checks. -/
def decodeFields : PageSnapshot where
  generation := fieldI64 b .generation
  writerPeriodSeconds := fieldI64 b .writerPeriodSeconds
  nodeName := slice b (pageOffset .nodeName) (fieldWord b .nodeNameLen).toNat
  observedAt := .ofUnix (fieldI64 b .observedAt)
  platform := decodePlatform b
  capacity := decodeCapacity b
  level := fieldCode b .level pageLevelCodes default
  darwin := if decodePlatform b = word .darwin then some (decodeDarwin b) else none
  linux :=
    if decodePlatform b = word .linux then some (decodeLinux b) else nonZero (decodeLinux b)
  signals := appended ((signalSlots b).map (decodeSignal b))
  admits := fieldWord b .admits = 1
  admitReasonSignal := fieldCode b .admitReasonSignal signalCodes default
  evictDeadline := (fieldOpt b .evictDeadline).map .ofUnix
  killMode :=
    { mode := fieldCode b .killModeMode pageKillModeCodes default
      armed := fieldWord b .killModeArmed = 1
      armingEpisodes := (fieldI64 b .killModeArmingEpisodes).toInt32
      reason := fieldCode b .killModeReason pageKillModeReasonCodes (word .unknown) }
  recommendation :=
    { safeAdditionalBytes := fieldOpt b .safeAdditionalBytes
      basis := fieldCode b .basis signalCodes default }
  counters := appended ((counterSlots b).map (decodeCounter b))

/-- The structural codes in the order the reader meets them. -/
def badCodes : List (Option PageReadError) :=
  [badCode b .platform pagePlatformCodes, badCode b .level pageLevelCodes] ++
  (signalSlots b).flatMap (fun i =>
    [badCode b (.signalId i) signalCodes, badCode b (.signalUnit i) pageUnitCodes,
      badCode b (.signalSharedWith i) signalCodes]) ++
  [badCode b .admitReasonSignal signalCodes, badCode b .killModeMode pageKillModeCodes,
    badCode b .basis signalCodes] ++
  (counterSlots b).map (fun i => badCode b (.counterBand i) pageBandCodes)

/-- `decodePage`: the reader's checks in the order the contract states them, then
every field. An unknown structural code is reported after the page was read. -/
def decodePage : Except PageReadError PageSnapshot :=
  let body := uintAt b (pageOffset .bodySize) 4
  let nameLen := (fieldWord b .nodeNameLen).toNat
  if n < pageSeqOffset then
    .error ⟨.truncated, [.d n, .s " bytes, shorter than the header line"]⟩
  else if slice b 0 pageMagic.length ≠ pageMagic then
    .error ⟨.abiMismatch, [.s "magic ", .q (slice b 0 pageMagic.length)]⟩
  else if uintAt b (pageOffset .abiMajor) 2 ≠ pageABIMajor then
    .error ⟨.abiMismatch, [.s "abiMajor ", .d (uintAt b (pageOffset .abiMajor) 2)]⟩
  else if uintAt b (pageOffset .headerSize) 4 ≠ pageHeaderSize then
    .error ⟨.abiMismatch, [.s "headerSize ", .d (uintAt b (pageOffset .headerSize) 4)]⟩
  else if body < pageBodySize then
    .error ⟨.truncated, [.s "bodySize ", .d body, .s " below the known ", .d pageBodySize]⟩
  else if n < pageHeaderSize + body then
    .error ⟨.truncated, [.d n, .s " bytes, want at least ", .d (pageHeaderSize + body)]⟩
  else if (wordAt b pageSeqOffset) % 2 = 1 then
    .error ⟨.torn, [.s "seq ", .d (wordAt b pageSeqOffset).toNat, .s " is odd"]⟩
  else if maxPageNodeNameBytes < nameLen then
    .error ⟨.corrupt, [.s "nodeNameLen ", .d nameLen, .s " above ", .d maxPageNodeNameBytes]⟩
  else match fieldOpt b .gpuPresent with
    | some v =>
      if v ≠ 0 ∧ v ≠ 1 then
        .error ⟨.corrupt, [.s "capacity.gpuPresent holds ", .d v.toInt, .s ", want 0 or 1"]⟩
      else ((badCodes b).findSome? id).elim (.ok (decodeFields b)) .error
    | none => ((badCodes b).findSome? id).elim (.ok (decodeFields b)) .error

end Reader

/-- The names whose row is one 8-byte word. -/
def PageFieldName.isWord : PageFieldName → Bool
  | .magic | .abiMajor | .abiMinor | .headerSize | .bodySize | .nodeName => false
  | _ => true

/-- No row writes past its own size. -/
theorem encode_length_le (n : PageFieldName) (s : PageSnapshot) :
    ((pageFieldSpec n).encode s).length ≤ (pageFieldSpec n).size := by
  cases n <;> simp [PageField.encode, pageFieldSpec, optRow, codeRow, pageMagic]

theorem encode_word {n : PageFieldName} (h : n.isWord = true) (s : PageSnapshot) :
    (pageFieldSpec n).encode s = leBytes 8 ((pageFieldSpec n).get s).1.toNat := by
  cases n <;> simp only [PageFieldName.isWord, Bool.false_eq_true] at h <;> rfl

theorem pageLayout_encode_length_le {f : PageField} (hf : f ∈ pageLayout) (s : PageSnapshot) :
    (f.encode s).length ≤ f.size := by
  rw [pageLayout_row hf]
  exact encode_length_le f.name s

theorem pageBodyEnd_eq : pageBodyEnd = 2344 := by decide +kernel

theorem pageBodyEnd_le : pageBodyEnd ≤ pageSize := by
  rw [pageBodyEnd_eq]
  decide

/-- The bytes of every row read back from the page. -/
theorem slice_pageOf_row (s : PageSnapshot) {f : PageField} (hf : f ∈ pageLayout) :
    slice (pageOf s) f.offset (f.encode s).length = f.encode s :=
  pageLayout_placed.slice_bytes pageBodyEnd_le
    (fun _ hg => pageLayout_encode_length_le hg s) hf

theorem slice_pageOf (s : PageSnapshot) (n : PageFieldName) :
    slice (pageOf s) (pageOffset n) ((pageFieldSpec n).encode s).length =
      (pageFieldSpec n).encode s :=
  slice_pageOf_row s (pageLayout_mem n)

/-- The word of every 8-byte field is what its getter returned. -/
theorem fieldWord_pageOf (s : PageSnapshot) {n : PageFieldName} (h : n.isWord = true) :
    fieldWord (pageOf s) n = ((pageFieldSpec n).get s).1 := by
  apply wordAt_of_slice
  have hs := slice_pageOf s n
  rw [encode_word h] at hs
  simpa using hs

/-- A snapshot the encoder accepts: the facts `EncodePage` established before it
returned nil. -/
structure Carried (s : PageSnapshot) : Prop where
  nameLength : s.nodeName.length ≤ maxPageNodeNameBytes
  nameNonempty : s.nodeName ≠ []
  period : 0 < s.writerPeriodSeconds
  platform : s.platform.valid = true
  level : s.level.valid = true
  signals : s.signals.list.length ≤ maxPageSignals
  counters : s.counters.list.length ≤ maxPageCounters
  darwinBlock : s.platform = word .darwin → s.darwin ≠ none
  linuxBlock : s.platform = word .linux → s.linux ≠ none ∧ s.darwin = none
  fields : ∀ n, (pageFieldSpec n).carries s = true

theorem checkPageSnapshot_ok {s : PageSnapshot} : checkPageSnapshot s = .ok () ↔
    s.nodeName.length ≤ maxPageNodeNameBytes ∧ s.nodeName ≠ [] ∧ 0 < s.writerPeriodSeconds ∧
    s.platform.valid = true ∧ s.level.valid = true ∧
    s.signals.list.length ≤ maxPageSignals ∧ s.counters.list.length ≤ maxPageCounters ∧
    (s.platform = word .darwin → s.darwin ≠ none) ∧
    (s.platform = word .linux → s.linux ≠ none ∧ s.darwin = none) := by
  simp only [checkPageSnapshot, bind_ok, refuseIf_ok, not_lt, Int64.not_le, Bool.not_eq_false,
    not_and, not_or, Decidable.not_not, ne_eq]

theorem pageLayout_find_none {s : PageSnapshot} :
    pageLayout.find? (fun f => !f.carries s) = none ↔
      ∀ n, (pageFieldSpec n).carries s = true := by
  rw [List.find?_eq_none]
  constructor
  · intro h n
    have hn := h _ (pageLayout_mem n)
    rw [Bool.not_eq_true', Bool.not_eq_false] at hn
    exact hn
  · intro h f hf
    rw [pageLayout_row hf, Bool.not_eq_true', Bool.not_eq_false]
    exact h f.name

/-- `EncodePage` accepts exactly the carried snapshots and returns their page. -/
theorem encodePage_ok {s : PageSnapshot} {page : Page} :
    encodePage s = .ok page ↔ Carried s ∧ page = pageOf s := by
  unfold encodePage
  rw [bind_ok, checkPageSnapshot_ok]
  constructor
  · rintro ⟨⟨h1, h2, h3, h4, h5, h6, h7, h8, h9⟩, h⟩
    cases hf : pageLayout.find? (fun f => !f.carries s) with
    | some f => simp [hf] at h
    | none =>
      simp only [hf, Except.ok.injEq] at h
      exact ⟨⟨h1, h2, h3, h4, h5, h6, h7, h8, h9, pageLayout_find_none.mp hf⟩, h.symm⟩
  · rintro ⟨⟨h1, h2, h3, h4, h5, h6, h7, h8, h9, hfields⟩, rfl⟩
    refine ⟨⟨h1, h2, h3, h4, h5, h6, h7, h8, h9⟩, ?_⟩
    rw [pageLayout_find_none.mpr hfields]

/-- Acceptance as two evaluations, for a given snapshot. -/
theorem encodePage_of_checks {s : PageSnapshot} (hc : checkPageSnapshot s = .ok ())
    (hf : PageFieldName.all.all (fun n => (pageFieldSpec n).carries s) = true) :
    encodePage s = .ok (pageOf s) := by
  rw [List.all_eq_true] at hf
  rw [encodePage, bind_ok, pageLayout_find_none.mpr (fun n => hf n (PageFieldName.mem_all n))]
  exact ⟨hc, rfl⟩

end K3smApis.Budget
