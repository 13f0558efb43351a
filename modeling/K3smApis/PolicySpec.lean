import K3smApis.ObservationValidate
import K3smApis.StringMap

/-!
# The node budget policy

The policy records of `nodebudgetpolicy.go`, their validation and the compiled-in
floors of `floors.go`.
-/
namespace K3smApis.Budget
open Check

def maxPolicyThresholds : ℕ := 8
def maxPolicyNodeSelectorLabels : ℕ := 32

/-- The floors of the tier-1 kill path. -/
def minTier1GraceSeconds : Int64 := 10
def minTier1HeldSeconds : Int64 := 10
def maxTier1DeliveriesPerHour : Int32 := 6
def minTier1DeliveriesPerHour : Int32 := 1
def minTier1CooloffSeconds : Int64 := 300

/-- The override of one signal's ladder. -/
structure SignalThresholds where
  signal : Wire SignalID := default
  warnThreshold : Option Int64 := none
  admitStopThreshold : Option Int64 := none
  criticalThreshold : Option Int64 := none
  evictSoftThreshold : Option Int64 := none
  evictHardThreshold : Option Int64 := none
  warnRelease : Option Int64 := none
  admitStopRelease : Option Int64 := none
  criticalRelease : Option Int64 := none
  evictSoftRelease : Option Int64 := none
  evictHardRelease : Option Int64 := none
  graceSeconds : Option Int64 := none
  minReclaimBytes : Option Int64 := none
  dwellSeconds : Option Int64 := none
  windowSeconds : Option Int64 := none
  deriving DecidableEq, Repr, Inhabited

def SignalThresholds.rungs (t : SignalThresholds) : List (Option Int64) :=
  [t.warnThreshold, t.admitStopThreshold, t.criticalThreshold, t.evictSoftThreshold,
    t.evictHardThreshold]

def SignalThresholds.releases (t : SignalThresholds) : List (Option Int64) :=
  [t.warnRelease, t.admitStopRelease, t.criticalRelease, t.evictSoftRelease,
    t.evictHardRelease]

structure BudgetReserves where
  cpuSystemReserveMilli : Option Int64 := none
  memSystemReserveBytes : Option Int64 := none
  memEvictionReserveBytes : Option Int64 := none
  deriving DecidableEq, Repr, Inhabited

structure BudgetHistory where
  memoryHalfLifeSeconds : Option Int64 := none
  cpuHalfLifeSeconds : Option Int64 := none
  marginPermille : Option Int32 := none
  deriving DecidableEq, Repr, Inhabited

/-- A policy. Every field is optional. -/
structure NodeBudgetPolicySpec where
  nodeSelector : Option StringMap := none
  priority : Int32 := 0
  thresholds : Slice SignalThresholds := none
  reserves : Option BudgetReserves := none
  history : Option BudgetHistory := none
  mode : Wire KillModeName := default
  tier1GraceSeconds : Option Int64 := none
  tier1HeldSeconds : Option Int64 := none
  tier1MaxDeliveriesPerHour : Option Int32 := none
  tier1CooloffSeconds : Option Int64 := none
  psiHeldPermille : Option Int32 := none
  deriving DecidableEq, Repr, Inhabited

/-- The checks of one threshold entry behind the test for a repeated signal. -/
def SignalThresholds.validate (t : SignalThresholds) : Check := do
  checkLadder t.signal t.rungs t.releases
  allNonNegative [("graceSeconds", t.graceSeconds), ("dwellSeconds", t.dwellSeconds),
    ("windowSeconds", t.windowSeconds)]
  nonNegative "minReclaimBytes" t.minReclaimBytes

def BudgetReserves.validate (r : BudgetReserves) : Check :=
  allNonNegative [("reserves.cpuSystemReserveMilli", r.cpuSystemReserveMilli),
    ("reserves.memSystemReserveBytes", r.memSystemReserveBytes),
    ("reserves.memEvictionReserveBytes", r.memEvictionReserveBytes)]

def BudgetHistory.validate (h : BudgetHistory) : Check := do
  forEach (fun f : String × Option Int64 => checkSome (fun n : Int64 => refuseIf (n < 1)
      [.s f.1, .s " ", .d n.toInt, .s " is below 1"]) f.2)
    [("history.memoryHalfLifeSeconds", h.memoryHalfLifeSeconds),
      ("history.cpuHalfLifeSeconds", h.cpuHalfLifeSeconds)]
  permille "history.marginPermille" h.marginPermille

/-- A map that may be nil, read as empty then. -/
def labelsOf (m : Option StringMap) : StringMap := m.getD .empty

/-- The unexported `validate` of a policy. -/
def NodeBudgetPolicySpec.validate (s : NodeBudgetPolicySpec) : Check := do
  refuseIf (maxPolicyNodeSelectorLabels < (labelsOf s.nodeSelector).size)
    [.s "nodeSelector has ", .d (labelsOf s.nodeSelector).size, .s " labels, at most ",
      .d maxPolicyNodeSelectorLabels]
  refuseIf (maxPolicyThresholds < s.thresholds.list.length)
    [.d s.thresholds.list.length, .s " thresholds, at most ", .d maxPolicyThresholds]
  forEachDistinct (fun i => [.s "thresholds[", .d i, .s "]"])
    (fun t : SignalThresholds => refuseIf (signalValid t.signal = false)
      [.s ": signal ", .q t.signal.text, .s " is not a known signal"])
    SignalThresholds.signal (fun t => [.s ": ", .str t.signal.text, .s " is repeated"])
    (fun t => within [.s " ", .str t.signal.text, .s ": "] t.validate) 0 [] s.thresholds.list
  checkSome BudgetReserves.validate s.reserves
  checkSome BudgetHistory.validate s.history
  refuseIf (s.mode ≠ default ∧ s.mode.valid = false)
    [.s "mode ", .q s.mode.text, .s " is not a known mode"]
  checkSome (fun v : Int32 => refuseIf (v < minTier1DeliveriesPerHour)
    [.s "tier1MaxDeliveriesPerHour ", .d v.toInt, .s " is below ",
      .d minTier1DeliveriesPerHour.toInt, .s "; set mode off to stop tier 1"])
    s.tier1MaxDeliveriesPerHour
  permille "psiHeldPermille" s.psiHeldPermille

/-- `NodeBudgetPolicySpec.Validate`. -/
def NodeBudgetPolicySpec.Validate (s : NodeBudgetPolicySpec) : Except BudgetError Unit :=
  wrapped [.invalidNodeBudgetPolicy] s.validate

/-- A set value within 0..1000, as `permille` accepts it in any width. -/
def InPermille {T : Type} [GoInt T] (v : Option T) : Prop :=
  ∀ n ∈ v, 0 ≤ GoInt.toInt n ∧ GoInt.toInt n ≤ 1000

/-- What the checks of a threshold entry establish. -/
structure SignalThresholds.Valid (t : SignalThresholds) : Prop where
  signal : Known t.signal
  ladder : LadderInOrder t.signal t.rungs t.releases
  graceSeconds : NonNeg t.graceSeconds
  minReclaimBytes : NonNeg t.minReclaimBytes
  dwellSeconds : NonNeg t.dwellSeconds
  windowSeconds : NonNeg t.windowSeconds

structure BudgetReserves.Valid (r : BudgetReserves) : Prop where
  cpuSystemReserveMilli : NonNeg r.cpuSystemReserveMilli
  memSystemReserveBytes : NonNeg r.memSystemReserveBytes
  memEvictionReserveBytes : NonNeg r.memEvictionReserveBytes

structure BudgetHistory.Valid (h : BudgetHistory) : Prop where
  memoryHalfLifeSeconds : ∀ n ∈ h.memoryHalfLifeSeconds, 1 ≤ n.toInt
  cpuHalfLifeSeconds : ∀ n ∈ h.cpuHalfLifeSeconds, 1 ≤ n.toInt
  marginPermille : InPermille h.marginPermille

/-- What `NodeBudgetPolicySpec.validate` establishes. -/
structure NodeBudgetPolicySpec.Valid (s : NodeBudgetPolicySpec) : Prop where
  labelCount : (labelsOf s.nodeSelector).size ≤ maxPolicyNodeSelectorLabels
  thresholdCount : s.thresholds.list.length ≤ maxPolicyThresholds
  thresholds : ∀ t ∈ s.thresholds.list, t.Valid
  distinct : (s.thresholds.list.map SignalThresholds.signal).Nodup
  reserves : ∀ r ∈ s.reserves, r.Valid
  history : ∀ h ∈ s.history, h.Valid
  mode : UnsetOrKnown s.mode
  deliveries : ∀ n ∈ s.tier1MaxDeliveriesPerHour, minTier1DeliveriesPerHour.toInt ≤ n.toInt
  psiHeldPermille : InPermille s.psiHeldPermille

theorem SignalThresholds.validate_ok {t : SignalThresholds} :
    Known t.signal ∧ t.validate = .ok () ↔ t.Valid := by
  simp only [SignalThresholds.validate, SignalThresholds.rungs, SignalThresholds.releases,
    bind_ok, checkLadder_ok, allNonNegative_ok, nonNegative_nonNeg, List.forall_mem_cons,
    List.not_mem_nil, IsEmpty.forall_iff, implies_true, and_true]
  constructor
  · rintro ⟨hs, hl, ⟨hg, hd, hw⟩, hm⟩
    exact ⟨hs, hl, hg, hm, hd, hw⟩
  · rintro ⟨hs, hl, hg, hm, hd, hw⟩
    exact ⟨hs, hl, ⟨hg, hd, hw⟩, hm⟩

theorem BudgetReserves.validate_ok {r : BudgetReserves} : r.validate = .ok () ↔ r.Valid := by
  simp only [BudgetReserves.validate, allNonNegative_ok, List.forall_mem_cons, List.not_mem_nil,
    IsEmpty.forall_iff, implies_true, and_true]
  constructor
  · rintro ⟨hc, hm, he⟩
    exact ⟨hc, hm, he⟩
  · rintro ⟨hc, hm, he⟩
    exact ⟨hc, hm, he⟩

theorem BudgetHistory.validate_ok {h : BudgetHistory} : h.validate = .ok () ↔ h.Valid := by
  have hone (n : Int64) : ¬n < 1 ↔ 1 ≤ n.toInt := by
    rw [Int64.not_lt, Int64.le_iff_toInt_le]
    rfl
  simp only [BudgetHistory.validate, bind_ok, forEach_ok, checkSome_ok, refuseIf_ok, hone,
    permille_ok, List.forall_mem_cons, List.not_mem_nil, IsEmpty.forall_iff, implies_true, and_true]
  constructor
  · rintro ⟨⟨hm, hc⟩, hp⟩
    exact ⟨hm, hc, hp⟩
  · rintro ⟨hm, hc, hp⟩
    exact ⟨⟨hm, hc⟩, hp⟩

/-- The validator accepts exactly the valid policies. -/
theorem NodeBudgetPolicySpec.validate_ok {s : NodeBudgetPolicySpec} :
    s.validate = .ok () ↔ s.Valid := by
  have hleast (n : Int32) : ¬n < minTier1DeliveriesPerHour ↔
      minTier1DeliveriesPerHour.toInt ≤ n.toInt := by
    rw [Int32.not_lt, Int32.le_iff_toInt_le]
  simp only [NodeBudgetPolicySpec.validate, bind_ok, forEachDistinct_ok, within_ok,
    checkSome_ok, BudgetReserves.validate_ok, BudgetHistory.validate_ok, permille_ok,
    refuseIf_ok, unsetOrKnown_iff, known_signal_iff, SignalThresholds.validate_ok, hleast, not_lt]
  constructor
  · rintro ⟨hl, hn, ⟨ht, hd⟩, hr, hh, hm, hc, hp⟩
    exact ⟨hl, hn, ht, hd, hr, hh, hm, hc, hp⟩
  · rintro ⟨hl, hn, ht, hd, hr, hh, hm, hc, hp⟩
    exact ⟨hl, hn, ⟨ht, hd⟩, hr, hh, hm, hc, hp⟩

theorem NodeBudgetPolicySpec.Validate_ok {s : NodeBudgetPolicySpec} :
    s.Validate = .ok () ↔ s.Valid := by
  rw [NodeBudgetPolicySpec.Validate, wrapped_ok, NodeBudgetPolicySpec.validate_ok]

/-- A field after its clamp, and its name when the value was past the bound. -/
def clamp {T : Type} (field : PolicyField) (past : T → Bool) (bound : T) (p : Option T) :
    Option T × List (Wire PolicyField) :=
  match p with
  | some v => if past v then (some bound, [word field]) else (some v, [])
  | none => (none, [])

/-- The closure `raise` of `ApplyFloors`. -/
def raise (field : PolicyField) (p : Option Int64) (floor : Int64) :
    Option Int64 × List (Wire PolicyField) :=
  clamp field (fun v => v < floor) floor p

/-- `ApplyFloors`: the policy with its tier-1 timers raised and its hourly cap lowered, and
the fields that changed. -/
def applyFloors (s : NodeBudgetPolicySpec) : NodeBudgetPolicySpec × Slice (Wire PolicyField) :=
  let grace := raise .tier1GraceSeconds s.tier1GraceSeconds minTier1GraceSeconds
  let held := raise .tier1HeldSeconds s.tier1HeldSeconds minTier1HeldSeconds
  let deliveries := clamp .tier1MaxDeliveriesPerHour (fun v => maxTier1DeliveriesPerHour < v)
    maxTier1DeliveriesPerHour s.tier1MaxDeliveriesPerHour
  let cooloff := raise .tier1CooloffSeconds s.tier1CooloffSeconds minTier1CooloffSeconds
  ({ s with
      tier1GraceSeconds := grace.1, tier1HeldSeconds := held.1,
      tier1MaxDeliveriesPerHour := deliveries.1, tier1CooloffSeconds := cooloff.1 },
    appended (grace.2 ++ held.2 ++ deliveries.2 ++ cooloff.2))

/-- No tier-1 value is past its floor. -/
structure NodeBudgetPolicySpec.WithinFloors (s : NodeBudgetPolicySpec) : Prop where
  grace : ∀ n ∈ s.tier1GraceSeconds, 10 ≤ n.toInt
  held : ∀ n ∈ s.tier1HeldSeconds, 10 ≤ n.toInt
  deliveries : ∀ n ∈ s.tier1MaxDeliveriesPerHour, n.toInt ≤ 6
  cooloff : ∀ n ∈ s.tier1CooloffSeconds, 300 ≤ n.toInt

section Clamp

variable {T : Type} {field : PolicyField} {past : T → Bool} {bound : T} {p : Option T}

theorem clamp_names_nil : (clamp field past bound p).2 = [] ↔ ∀ v ∈ p, past v = false := by
  cases p with
  | none => simp [clamp]
  | some v => cases h : past v <;> simp [clamp, h]

theorem clamp_within (hbound : past bound = false) :
    ∀ v ∈ (clamp field past bound p).1, past v = false := by
  cases p with
  | none => simp [clamp]
  | some v => cases h : past v <;> simp [clamp, h, hbound]

/-- The name is given exactly when the value changed. -/
theorem clamp_names [DecidableEq T] (field : PolicyField) (p : Option T)
    (hbound : past bound = false) :
    (clamp field past bound p).2 =
      if (clamp field past bound p).1 ≠ p then [word field] else [] := by
  cases p with
  | none => rfl
  | some v =>
    cases h : past v with
    | false => simp [clamp, h]
    | true =>
      have hne : bound ≠ v := fun heq => by simp [← heq, hbound] at h
      simp [clamp, h, hne]

end Clamp

theorem applyFloors_none {s : NodeBudgetPolicySpec} :
    (applyFloors s).2.list = [] ↔ s.WithinFloors := by
  have hraise (n floor : Int64) : decide (n < floor) = false ↔ floor.toInt ≤ n.toInt := by
    rw [decide_eq_false_iff_not, Int64.not_lt, Int64.le_iff_toInt_le]
  have hlower (n : Int32) : decide (maxTier1DeliveriesPerHour < n) = false ↔ n.toInt ≤ 6 := by
    rw [decide_eq_false_iff_not, Int32.not_lt, Int32.le_iff_toInt_le]
    rfl
  simp only [applyFloors, appended_list, List.append_eq_nil_iff, raise, clamp_names_nil, hraise,
    hlower]
  constructor
  · rintro ⟨⟨⟨hg, hh⟩, hd⟩, hc⟩
    exact ⟨hg, hh, hd, hc⟩
  · rintro ⟨hg, hh, hd, hc⟩
    exact ⟨⟨⟨hg, hh⟩, hd⟩, hc⟩

theorem applyFloors_within (s : NodeBudgetPolicySpec) : (applyFloors s).1.WithinFloors := by
  rw [← applyFloors_none]
  simp only [applyFloors, appended_list, List.append_eq_nil_iff, raise, clamp_names_nil]
  exact ⟨⟨⟨clamp_within (by decide), clamp_within (by decide)⟩, clamp_within (by decide)⟩,
    clamp_within (by decide)⟩

/-- The floors keep a policy valid: the lowered cap is not below the least one. -/
theorem NodeBudgetPolicySpec.Valid.applyFloors {s : NodeBudgetPolicySpec} (h : s.Valid) :
    (applyFloors s).1.Valid := by
  refine ⟨h.labelCount, h.thresholdCount, h.thresholds, h.distinct, h.reserves, h.history,
    h.mode, ?_, h.psiHeldPermille⟩
  intro n hn
  have hcap := h.deliveries
  simp only [Budget.applyFloors] at hn
  cases hp : s.tier1MaxDeliveriesPerHour with
  | none => simp [hp, clamp] at hn
  | some v =>
    rw [hp, clamp] at hn
    split_ifs at hn with hpast
    · obtain rfl := Option.some.inj hn
      decide
    · obtain rfl := Option.some.inj hn
      exact hcap v hp

/-- The value a policy gives one of the fields a node may clamp. -/
def PolicyField.value (s : NodeBudgetPolicySpec) : PolicyField → Option ℤ
  | .tier1GraceSeconds => s.tier1GraceSeconds.map Int64.toInt
  | .tier1HeldSeconds => s.tier1HeldSeconds.map Int64.toInt
  | .tier1MaxDeliveriesPerHour => s.tier1MaxDeliveriesPerHour.map Int32.toInt
  | .tier1CooloffSeconds => s.tier1CooloffSeconds.map Int64.toInt
  | .reservesCPUSystemReserveMilli =>
    (s.reserves.bind BudgetReserves.cpuSystemReserveMilli).map Int64.toInt
  | .reservesMemSystemReserveBytes =>
    (s.reserves.bind BudgetReserves.memSystemReserveBytes).map Int64.toInt
  | .reservesMemEvictionReserveBytes =>
    (s.reserves.bind BudgetReserves.memEvictionReserveBytes).map Int64.toInt

/-- The fields with a changed value, in the order of the vocabulary. -/
def changedFields (s out : NodeBudgetPolicySpec) : List PolicyField :=
  Vocabulary.words.filter (fun f : PolicyField => f.value out ≠ f.value s)

theorem map_toInt64_ne {a b : Option Int64} : a.map Int64.toInt ≠ b.map Int64.toInt ↔ a ≠ b :=
  (Option.map_injective (fun _ _ h => Int64.toInt.inj h)).ne_iff

theorem map_toInt32_ne {a b : Option Int32} : a.map Int32.toInt ≠ b.map Int32.toInt ↔ a ≠ b :=
  (Option.map_injective (fun _ _ h => Int32.toInt.inj h)).ne_iff

theorem map_word_filter_cons (changed : PolicyField → Prop) [DecidablePred changed]
    (f : PolicyField) (fs : List PolicyField) :
    ((f :: fs).filter (fun g => changed g)).map word =
      (if changed f then [word f] else []) ++ (fs.filter (fun g => changed g)).map word := by
  by_cases h : changed f <;> simp [h]

/-- The floors report exactly what they changed. -/
theorem applyFloors_names (s : NodeBudgetPolicySpec) :
    (applyFloors s).2.list = (changedFields s (applyFloors s).1).map word := by
  have hraise (f : PolicyField) (p : Option Int64) (floor : Int64) :
      (raise f p floor).2 = if (raise f p floor).1 ≠ p then [word f] else [] :=
    clamp_names f p (decide_eq_false Int64.lt_irrefl)
  have hcap : (clamp .tier1MaxDeliveriesPerHour (fun v => decide (maxTier1DeliveriesPerHour < v))
      maxTier1DeliveriesPerHour s.tier1MaxDeliveriesPerHour).2 = _ :=
    clamp_names _ _ (decide_eq_false Int32.lt_irrefl)
  simp only [changedFields, Vocabulary.words, map_word_filter_cons, PolicyField.value,
    map_toInt64_ne, map_toInt32_ne, applyFloors, appended_list, List.filter_nil, List.map_nil,
    hraise, hcap, ne_eq, not_true_eq_false, if_false, List.append_nil, List.append_assoc]

end K3smApis.Budget
