import K3smApis.GoText

/-!
# The vocabulary of the budget contract

The source declares each enumeration as a named string type with constants. Here
the constants are an inductive type and `Wire V` is the string type itself, which
holds any bytes: a value read from outside need not be a word of its vocabulary.
-/
namespace K3smApis.Budget

/-- The words of one enumeration in declaration order, and their wire strings. -/
class Vocabulary (V : Type) where
  words : List V
  spell : V → String
  complete : ∀ v, v ∈ words
  distinct : (words.map spell).Nodup
  nonempty : ∀ v, spell v ≠ ""

/-- A value of the source's string type over the vocabulary `V`. -/
structure Wire (V : Type) where
  text : GoString
  deriving Repr

/-- Two values of a string type are equal when their bytes are. -/
instance {V : Type} : DecidableEq (Wire V) := fun a b =>
  decidable_of_iff (a.text = b.text) ⟨fun h => by cases a; cases b; simp_all, fun h => h ▸ rfl⟩

/-- The zero value of a string type is the empty string. -/
instance {V : Type} : Inhabited (Wire V) := ⟨⟨[]⟩⟩

/-- The constant that spells a word. -/
def word {V : Type} [Vocabulary V] (v : V) : Wire V := ⟨lit (Vocabulary.spell v)⟩

theorem spell_injective {V : Type} [Vocabulary V] :
    Function.Injective (Vocabulary.spell : V → String) := by
  intro a b h
  exact List.inj_on_of_nodup_map Vocabulary.distinct
    (Vocabulary.complete a) (Vocabulary.complete b) h

@[simp] theorem word_inj {V : Type} [Vocabulary V] {a b : V} : word a = word b ↔ a = b := by
  constructor
  · intro h
    have he := congrArg Wire.text h
    exact spell_injective (lit_inj.mp he)
  · rintro rfl
    rfl

@[simp] theorem word_ne_default {V : Type} [Vocabulary V] (v : V) : word v ≠ default := by
  intro h
  have he := congrArg Wire.text h
  exact Vocabulary.nonempty v (lit_eq_nil.mp he)

/-- Whether `v` equals one of `want`. -/
def oneOf {α : Type} [DecidableEq α] (v : α) (want : List α) : Bool := want.any (v = ·)

@[simp] theorem oneOf_iff {α : Type} [DecidableEq α] {v : α} {want : List α} :
    oneOf v want = true ↔ v ∈ want := by
  simp [oneOf]

/-- The `Valid` method of every string type but `SignalID`: membership in the
constants of the type. -/
def Wire.valid {V : Type} [Vocabulary V] (w : Wire V) : Bool :=
  oneOf w (Vocabulary.words.map word)

theorem Wire.valid_iff {V : Type} [Vocabulary V] {w : Wire V} :
    w.valid = true ↔ ∃ v : V, w = word v := by
  simp only [Wire.valid, oneOf_iff, List.mem_map]
  constructor
  · rintro ⟨v, _, rfl⟩
    exact ⟨v, rfl⟩
  · rintro ⟨v, rfl⟩
    exact ⟨v, Vocabulary.complete v, rfl⟩

@[simp] theorem word_valid {V : Type} [Vocabulary V] (v : V) : (word v).valid = true :=
  Wire.valid_iff.mpr ⟨v, rfl⟩

/-- The pressure signals, in page-code order. -/
inductive SignalID where
  | memoryAvailable | memoryCompressor | memorySwap | swapfsAvailable
  | nodefsAvailable | imagefsAvailable | pidAvailable
  deriving DecidableEq, Repr

instance : Vocabulary SignalID where
  words := [.memoryAvailable, .memoryCompressor, .memorySwap, .swapfsAvailable,
    .nodefsAvailable, .imagefsAvailable, .pidAvailable]
  spell
    | .memoryAvailable => "memory.available"
    | .memoryCompressor => "memory.compressor"
    | .memorySwap => "memory.swap"
    | .swapfsAvailable => "swapfs.available"
    | .nodefsAvailable => "nodefs.available"
    | .imagefsAvailable => "imagefs.available"
    | .pidAvailable => "pid.available"
  complete v := by cases v <;> decide
  distinct := by decide
  nonempty v := by cases v <;> decide

inductive SignalUnit where
  | bytes | permille | count
  deriving DecidableEq, Repr

instance : Vocabulary SignalUnit where
  words := [.bytes, .permille, .count]
  spell
    | .bytes => "bytes"
    | .permille => "permille"
    | .count => "count"
  complete v := by cases v <;> decide
  distinct := by decide
  nonempty v := by cases v <;> decide

inductive Level where
  | ok | warn | critical | evicting
  deriving DecidableEq, Repr

instance : Vocabulary Level where
  words := [.ok, .warn, .critical, .evicting]
  spell
    | .ok => "ok"
    | .warn => "warn"
    | .critical => "critical"
    | .evicting => "evicting"
  complete v := by cases v <;> decide
  distinct := by decide
  nonempty v := by cases v <;> decide

/-- The eviction bands in their fixed order, the order of `Bands()`. -/
inductive Band where
  | critical | standard | batch
  deriving DecidableEq, Repr

instance : Vocabulary Band where
  words := [.critical, .standard, .batch]
  spell
    | .critical => "critical"
    | .standard => "standard"
    | .batch => "batch"
  complete v := by cases v <;> decide
  distinct := by decide
  nonempty v := by cases v <;> decide

/-- `Bands()`: the bands in order. -/
def bands : List (Wire Band) := Vocabulary.words.map word

inductive Trend where
  | falling | steady | rising | unknown
  deriving DecidableEq, Repr

instance : Vocabulary Trend where
  words := [.falling, .steady, .rising, .unknown]
  spell
    | .falling => "falling"
    | .steady => "steady"
    | .rising => "rising"
    | .unknown => "unknown"
  complete v := by cases v <;> decide
  distinct := by decide
  nonempty v := by cases v <;> decide

inductive LimitingResource where
  | memory | swapfs | nodefs | imagefs | pid | cpu | unknown
  deriving DecidableEq, Repr

instance : Vocabulary LimitingResource where
  words := [.memory, .swapfs, .nodefs, .imagefs, .pid, .cpu, .unknown]
  spell
    | .memory => "memory"
    | .swapfs => "swapfs"
    | .nodefs => "nodefs"
    | .imagefs => "imagefs"
    | .pid => "pid"
    | .cpu => "cpu"
    | .unknown => "unknown"
  complete v := by cases v <;> decide
  distinct := by decide
  nonempty v := by cases v <;> decide

inductive KillModeName where
  | auto | on | off
  deriving DecidableEq, Repr

instance : Vocabulary KillModeName where
  words := [.auto, .on, .off]
  spell
    | .auto => "auto"
    | .on => "on"
    | .off => "off"
  complete v := by cases v <;> decide
  distinct := by decide
  nonempty v := by cases v <;> decide

inductive KillModeReason where
  | coldStart | observing | armed | policyOff | disarmFile | unknown
  deriving DecidableEq, Repr

instance : Vocabulary KillModeReason where
  words := [.coldStart, .observing, .armed, .policyOff, .disarmFile, .unknown]
  spell
    | .coldStart => "cold-start"
    | .observing => "observing"
    | .armed => "armed"
    | .policyOff => "policy-off"
    | .disarmFile => "disarm-file"
    | .unknown => "unknown"
  complete v := by cases v <;> decide
  distinct := by decide
  nonempty v := by cases v <;> decide

inductive WouldKillReason where
  | heldPressure | memoryFloor | unknown
  deriving DecidableEq, Repr

instance : Vocabulary WouldKillReason where
  words := [.heldPressure, .memoryFloor, .unknown]
  spell
    | .heldPressure => "held-pressure"
    | .memoryFloor => "memory-floor"
    | .unknown => "unknown"
  complete v := by cases v <;> decide
  distinct := by decide
  nonempty v := by cases v <;> decide

inductive PolicyOutcome where
  | applied | rejected | clamped
  deriving DecidableEq, Repr

instance : Vocabulary PolicyOutcome where
  words := [.applied, .rejected, .clamped]
  spell
    | .applied => "applied"
    | .rejected => "rejected"
    | .clamped => "clamped"
  complete v := by cases v <;> decide
  distinct := by decide
  nonempty v := by cases v <;> decide

/-- The policy fields a node may clamp, in the order of `PolicyFields()`. -/
inductive PolicyField where
  | tier1GraceSeconds | tier1HeldSeconds | tier1MaxDeliveriesPerHour | tier1CooloffSeconds
  | reservesCPUSystemReserveMilli | reservesMemSystemReserveBytes
  | reservesMemEvictionReserveBytes
  deriving DecidableEq, Repr

instance : Vocabulary PolicyField where
  words := [.tier1GraceSeconds, .tier1HeldSeconds, .tier1MaxDeliveriesPerHour,
    .tier1CooloffSeconds, .reservesCPUSystemReserveMilli, .reservesMemSystemReserveBytes,
    .reservesMemEvictionReserveBytes]
  spell
    | .tier1GraceSeconds => "tier1GraceSeconds"
    | .tier1HeldSeconds => "tier1HeldSeconds"
    | .tier1MaxDeliveriesPerHour => "tier1MaxDeliveriesPerHour"
    | .tier1CooloffSeconds => "tier1CooloffSeconds"
    | .reservesCPUSystemReserveMilli => "reserves.cpuSystemReserveMilli"
    | .reservesMemSystemReserveBytes => "reserves.memSystemReserveBytes"
    | .reservesMemEvictionReserveBytes => "reserves.memEvictionReserveBytes"
  complete v := by cases v <;> decide
  distinct := by decide
  nonempty v := by cases v <;> decide

inductive CounterWindow where
  | window1h | window24h
  deriving DecidableEq, Repr

instance : Vocabulary CounterWindow where
  words := [.window1h, .window24h]
  spell
    | .window1h => "1h"
    | .window24h => "24h"
  complete v := by cases v <;> decide
  distinct := by decide
  nonempty v := by cases v <;> decide

inductive CounterReason where
  | eviction | oomKill | kernelKill | restart | memHigh | tier1Refused | unknown
  deriving DecidableEq, Repr

instance : Vocabulary CounterReason where
  words := [.eviction, .oomKill, .kernelKill, .restart, .memHigh, .tier1Refused, .unknown]
  spell
    | .eviction => "eviction"
    | .oomKill => "oom-kill"
    | .kernelKill => "kernel-kill"
    | .restart => "restart"
    | .memHigh => "mem-high"
    | .tier1Refused => "tier1-refused"
    | .unknown => "unknown"
  complete v := by cases v <;> decide
  distinct := by decide
  nonempty v := by cases v <;> decide

inductive WriterShape where
  | annotationRelay | ownNode
  deriving DecidableEq, Repr

instance : Vocabulary WriterShape where
  words := [.annotationRelay, .ownNode]
  spell
    | .annotationRelay => "annotation-relay"
    | .ownNode => "own-node"
  complete v := by cases v <;> decide
  distinct := by decide
  nonempty v := by cases v <;> decide

inductive Platform where
  | darwin | linux
  deriving DecidableEq, Repr

instance : Vocabulary Platform where
  words := [.darwin, .linux]
  spell
    | .darwin => "darwin"
    | .linux => "linux"
  complete v := by cases v <;> decide
  distinct := by decide
  nonempty v := by cases v <;> decide

/-- A value's code in a table, its index plus one, or 0. -/
def codeIn {V : Type} (table : List (Wire V)) (v : Wire V) : UInt64 :=
  match table.findIdx? (· = v) with
  | some i => UInt64.ofNat (i + 1)
  | none => 0

/-- `signalCodes`: index `i` holds the signal with code `i + 1`. -/
def signalCodes : List (Wire SignalID) := Vocabulary.words.map word

/-- The signal's fixed page code, or 0 for a signal this release does not know. -/
def pageCodeOf (s : Wire SignalID) : UInt64 := codeIn signalCodes s

/-- `SignalID.Valid` reads the code table, not the list of constants. -/
def signalValid (s : Wire SignalID) : Bool := pageCodeOf s ≠ 0

/-- Whether the signal's value falls as pressure rises: a rule on the name alone. -/
def isDescending (s : Wire SignalID) : Bool := (lit ".available").isSuffixOf s.text

/-- The signal's canonical unit, or the empty string for an unknown signal. -/
def unitOf (s : Wire SignalID) : Wire SignalUnit :=
  if s = word .memoryCompressor then word .permille
  else if s = word .pidAvailable then word .count
  else if oneOf s [word .memoryAvailable, word .memorySwap, word .swapfsAvailable,
      word .nodefsAvailable, word .imagefsAvailable] then word .bytes
  else default

def pageUnitCodes : List (Wire SignalUnit) := [.bytes, .permille, .count].map word
def pageLevelCodes : List (Wire Level) := [.ok, .warn, .critical, .evicting].map word
def pageBandCodes : List (Wire Band) := [.critical, .standard, .batch].map word
def pagePlatformCodes : List (Wire Platform) := [.darwin, .linux].map word
def pageKillModeCodes : List (Wire KillModeName) := [.auto, .on, .off].map word
def pageTrendCodes : List (Wire Trend) := [.falling, .steady, .rising].map word
def pageLimitingResourceCodes : List (Wire LimitingResource) :=
  [.memory, .swapfs, .nodefs, .imagefs, .pid, .cpu].map word
def pageKillModeReasonCodes : List (Wire KillModeReason) :=
  [.coldStart, .observing, .armed, .policyOff, .disarmFile].map word

/-- `pageCode`: a value's code and whether the table can carry it. The empty value
and, when given, the type's "unknown" value both encode as 0. -/
def pageCode {V : Type} (table : List (Wire V)) (v unknown : Wire V) : UInt64 × Bool :=
  if v = default ∨ (unknown ≠ default ∧ v = unknown) then (0, true)
  else match table.findIdx? (· = v) with
    | some i => (UInt64.ofNat (i + 1), true)
    | none => (0, false)

theorem signalValid_iff {s : Wire SignalID} :
    signalValid s = true ↔ ∃ v : SignalID, s = word v := by
  simp only [signalValid, pageCodeOf, codeIn]
  constructor
  · intro h
    cases hf : signalCodes.findIdx? (· = s) with
    | none => simp [hf] at h
    | some i =>
      obtain ⟨hi, hp, _⟩ := List.findIdx?_eq_some_iff_getElem.mp hf
      have hm : signalCodes[i] ∈ signalCodes := List.getElem_mem hi
      rw [of_decide_eq_true hp] at hm
      obtain ⟨v, _, hv⟩ := List.mem_map.mp hm
      exact ⟨v, hv.symm⟩
  · rintro ⟨v, rfl⟩
    cases v <;> decide

/-- Every known signal has a unit of the vocabulary. -/
theorem unitOf_word (v : SignalID) : ∃ u : SignalUnit, unitOf (word v) = word u := by
  cases v <;> simp [unitOf, oneOf_iff]

end K3smApis.Budget
