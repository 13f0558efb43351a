import K3smApis.BudgetSchema

/-!
# Policy admission

The spec schema of `budget.k3sm.io_nodebudgetpolicies.yaml`, and what it accepts: the API
server admits exactly the policies that validate, that no floor would clamp and whose
selector values are short enough for labels.
-/
namespace K3smApis.Budget
open GoJson Schema

def SignalThresholds.schema : Schema :=
  .object ["signal"] (
    .property "signal" (enumOf signalWords) <|
    .property "warnThreshold" (int64From 0) <|
    .property "admitStopThreshold" (int64From 0) <|
    .property "criticalThreshold" (int64From 0) <|
    .property "evictSoftThreshold" (int64From 0) <|
    .property "evictHardThreshold" (int64From 0) <|
    .property "warnRelease" (int64From 0) <|
    .property "admitStopRelease" (int64From 0) <|
    .property "criticalRelease" (int64From 0) <|
    .property "evictSoftRelease" (int64From 0) <|
    .property "evictHardRelease" (int64From 0) <|
    .property "graceSeconds" (int64From 0) <|
    .property "minReclaimBytes" (int64From 0) <|
    .property "dwellSeconds" (int64From 0) <|
    .property "windowSeconds" (int64From 0) <|
    .nil)
    (ladderRules "signal")

def BudgetReserves.schema : Schema :=
  .object [] (
    .property "cpuSystemReserveMilli" (int64From 0) <|
    .property "memSystemReserveBytes" (int64From 0) <|
    .property "memEvictionReserveBytes" (int64From 0) <|
    .nil)
    []

def BudgetHistory.schema : Schema :=
  .object [] (
    .property "memoryHalfLifeSeconds" (int64From 1) <|
    .property "cpuHalfLifeSeconds" (int64From 1) <|
    .property "marginPermille" (int32Within 0 1000) <|
    .nil)
    []

/-- The schema of a policy's spec. -/
def NodeBudgetPolicySpec.schema : Schema :=
  .object [] (
    .property "nodeSelector" (.map 32 (.string { maxLength := some 63 })) <|
    .property "priority" (.integer none none) <|
    .property "thresholds" (.array 8 (.map ["signal"]) SignalThresholds.schema) <|
    .property "reserves" BudgetReserves.schema <|
    .property "history" BudgetHistory.schema <|
    .property "mode" (enumOf killModeWords) <|
    .property "tier1GraceSeconds" (int64From 10) <|
    .property "tier1HeldSeconds" (int64From 10) <|
    .property "tier1MaxDeliveriesPerHour" (int32Within 1 6) <|
    .property "tier1CooloffSeconds" (int64From 300) <|
    .property "psiHeldPermille" (int32Within 0 1000) <|
    .nil)
    []

theorem BudgetReserves.schema_accepts {r : BudgetReserves} :
    BudgetReserves.schema.accepts (BudgetReserves.goType.encode r) = true ↔ r.Valid := by
  rw [BudgetReserves.schema, BudgetReserves.goType, accepts_plainStruct]
  simp only [Fits, Properties.find?, lit_inj, String.reduceEq, reduceIte, Option.mem_some_iff,
    forall_eq', fits_ptr, accepts_int64From, Equiv.coe_fn_mk, and_true]
  constructor
  · rintro ⟨hc, hm, he⟩
    exact ⟨hc, hm, he⟩
  · rintro ⟨hc, hm, he⟩
    exact ⟨hc, hm, he⟩

theorem BudgetHistory.schema_accepts {h : BudgetHistory} :
    BudgetHistory.schema.accepts (BudgetHistory.goType.encode h) = true ↔ h.Valid := by
  rw [BudgetHistory.schema, BudgetHistory.goType, accepts_plainStruct]
  simp only [Fits, Properties.find?, lit_inj, String.reduceEq, reduceIte, Option.mem_some_iff,
    forall_eq', fits_ptr, accepts_int64From, accepts_int32Within, Equiv.coe_fn_mk, and_true]
  constructor
  · rintro ⟨hm, hc, hp⟩
    exact ⟨hm, hc, hp⟩
  · rintro ⟨hm, hc, hp⟩
    exact ⟨hm, hc, hp⟩

/-- The members of an entry that its rules read. -/
theorem SignalThresholds.encode_members (t : SignalThresholds) :
    ∃ ms, SignalThresholds.goType.encode t = .obj ms ∧
      member? ms (lit "signal") = some (.str t.signal.text) ∧
      ∀ n ∈ rungNames ++ releaseNames,
        member? ms (lit n) = (ladderValue t.rungs t.releases n).map int64.encode := by
  refine ⟨_, by rw [SignalThresholds.goType, GoType.encode], ?_, ?_⟩
  · rw [member?_encode (by decide)]
    rfl
  · intro n
    rw [member?_encode (by decide)]
    revert n
    simp only [rungNames, releaseNames, List.cons_append, List.nil_append, List.forall_mem_cons,
      fieldValue, lit_inj, String.reduceEq, reduceIte, value_ptr, Equiv.coe_fn_mk]
    exact ⟨rfl, rfl, rfl, rfl, rfl, rfl, rfl, rfl, rfl, rfl, by simp⟩

/-- The schema of an entry accepts what `validate` accepts of it. -/
theorem SignalThresholds.schema_accepts {t : SignalThresholds} :
    SignalThresholds.schema.accepts (SignalThresholds.goType.encode t) = true ↔ t.Valid := by
  obtain ⟨ms, hms, hsignal, hval⟩ := t.encode_members
  rw [SignalThresholds.schema, SignalThresholds.goType, accepts_struct hms]
  simp only [Fits, Properties.find?, lit_inj, String.reduceEq, reduceIte, Option.mem_some_iff,
    forall_eq', fits_ptr, accepts_int64From, lists_signals.fits_never, Equiv.coe_fn_mk,
    List.forall_mem_singleton, hsignal, Option.isSome_some, true_and, and_true]
  constructor
  · rintro ⟨⟨hknown, h1, h2, h3, h4, h5, l1, l2, l3, l4, l5, hg, hm, hd, hw⟩, hrules⟩
    obtain ⟨v, hv⟩ := hknown
    rw [hv] at hsignal
    have hrungs : ∀ r ∈ t.rungs, NonNeg r := by
      simp only [SignalThresholds.rungs, List.forall_mem_cons]
      exact ⟨h1, h2, h3, h4, h5, by simp⟩
    have hreleases : ∀ r ∈ t.releases, NonNeg r := by
      simp only [SignalThresholds.releases, List.forall_mem_cons]
      exact ⟨l1, l2, l3, l4, l5, by simp⟩
    have hladder := (ladderRules_inOrder hsignal hval).mp ⟨hrungs, hreleases, hrules⟩
    exact ⟨⟨v, hv⟩, hv ▸ hladder, hg, hm, hd, hw⟩
  · intro h
    obtain ⟨v, hv⟩ := h.signal
    have hladder := h.ladder
    rw [hv] at hsignal hladder
    obtain ⟨hr, hl, hrules⟩ := (ladderRules_inOrder hsignal hval).mpr hladder
    simp only [List.forall_mem_cons] at hr hl
    exact ⟨⟨⟨v, hv⟩, hr.1, hr.2.1, hr.2.2.1, hr.2.2.2.1, hr.2.2.2.2.1, hl.1, hl.2.1, hl.2.2.1,
      hl.2.2.2.1, hl.2.2.2.2.1, h.graceSeconds, h.minReclaimBytes, h.dwellSeconds,
      h.windowSeconds⟩, hrules⟩

/-- Entries of known signals are told apart by their keys as by their signals. -/
theorem SignalThresholds.itemKey_inj {t u : SignalThresholds} (hu : u.Valid) :
    itemKey ["signal"] (SignalThresholds.goType.encode t) =
      itemKey ["signal"] (SignalThresholds.goType.encode u) ↔ t.signal = u.signal := by
  have hkey (x : SignalThresholds) : itemKey ["signal"] (SignalThresholds.goType.encode x) =
      [some (.str (Utf8.runes x.signal.text))] := by
    obtain ⟨ms, hms, hsignal, -⟩ := x.encode_members
    simp [itemKey, hms, Cel.at?, hsignal, Cel.scalar?]
  rw [hkey, hkey, lists_signals.key_inj hu.signal]

/-- The schema of a policy, in the validator's terms. -/
theorem NodeBudgetPolicySpec.schema_accepts {s : NodeBudgetPolicySpec} :
    NodeBudgetPolicySpec.schema.accepts (NodeBudgetPolicySpec.goType.encode s) = true ↔
      s.Valid ∧ s.WithinFloors ∧
        ∀ e ∈ (labelsOf s.nodeSelector).entries, (Utf8.runes e.2).length ≤ 63 := by
  have hpriority : FieldFits .empty int32 (.integer none none) s.priority :=
    .inr (accepts_int32.mpr (by simp))
  have hlength (v : GoString) : (Schema.string { maxLength := some 63 }).accepts (.str v) = true ↔
      (Utf8.runes v).length ≤ 63 := by
    simp [Schema.accepts, StringRules.accepts]
  rw [NodeBudgetPolicySpec.schema, NodeBudgetPolicySpec.goType, accepts_plainStruct]
  simp only [Fits, Properties.find?, lit_inj, String.reduceEq, reduceIte, Option.mem_some_iff,
    forall_eq', fits_ptr, fits_slice, fits_stringMap, accepts_int64From, accepts_int32Within,
    lists_killModes.fits_empty, BudgetReserves.schema_accepts, BudgetHistory.schema_accepts,
    SignalThresholds.schema_accepts, hpriority, hlength, Equiv.coe_fn_mk, true_and, and_true]
  constructor
  · rintro ⟨⟨hn, hv⟩, ⟨htn, htd, ht⟩, hr, hh, hm, hg, hheld, hd, hc, hp⟩
    rw [listMap_accepts fun x _ y hy => SignalThresholds.itemKey_inj (ht y hy)] at htd
    exact ⟨⟨hn, htn, ht, htd, hr, hh, hm, fun n hn => (hd n hn).1, hp⟩,
      ⟨hg, hheld, fun n hn => (hd n hn).2, hc⟩, hv⟩
  · rintro ⟨hs, hf, hv⟩
    have htd := (listMap_accepts fun x _ y hy =>
      SignalThresholds.itemKey_inj (t := x) (hs.thresholds y hy)).mpr hs.distinct
    exact ⟨⟨hs.labelCount, hv⟩, ⟨hs.thresholdCount, htd, hs.thresholds⟩, hs.reserves, hs.history,
      hs.mode, hf.grace, hf.held, fun n hn => ⟨hs.deliveries n hn, hf.deliveries n hn⟩, hf.cooloff,
      hs.psiHeldPermille⟩

/-- Admission and the node agree: the API server admits a policy exactly when it validates,
no floor clamps it and its selector values fit a label. The floors keep a valid policy valid,
they leave nothing to clamp, and they name each field they changed once. -/
theorem policyAdmission_agrees (s : NodeBudgetPolicySpec) :
    (NodeBudgetPolicySpec.schema.accepts (NodeBudgetPolicySpec.goType.encode s) = true ↔
      s.Validate = .ok () ∧ (applyFloors s).2.list = [] ∧
        ∀ e ∈ (labelsOf s.nodeSelector).entries, (Utf8.runes e.2).length ≤ 63) ∧
    (s.Validate = .ok () →
      (applyFloors s).1.Validate = .ok () ∧
      (applyFloors (applyFloors s).1).2.list = [] ∧
      (applyFloors s).2.list.Nodup ∧
      (∀ w, w ∈ (applyFloors s).2.list ↔
        ∃ f : PolicyField, w = word f ∧ f.value (applyFloors s).1 ≠ f.value s) ∧
      -- nothing but the four tier-1 values can change
      { (applyFloors s).1 with
        tier1GraceSeconds := s.tier1GraceSeconds, tier1HeldSeconds := s.tier1HeldSeconds,
        tier1MaxDeliveriesPerHour := s.tier1MaxDeliveriesPerHour,
        tier1CooloffSeconds := s.tier1CooloffSeconds } = s) := by
  refine ⟨?_, fun hvalid => ⟨?_, ?_, ?_, ?_, rfl⟩⟩
  · rw [NodeBudgetPolicySpec.schema_accepts, NodeBudgetPolicySpec.Validate_ok, applyFloors_none]
  · rw [NodeBudgetPolicySpec.Validate_ok] at hvalid ⊢
    exact hvalid.applyFloors
  · exact applyFloors_none.mpr (applyFloors_within s)
  · rw [applyFloors_names]
    exact (List.Nodup.filter _ (by decide)).map fun _ _ h => word_inj.mp h
  · intro w
    rw [applyFloors_names, changedFields, List.mem_map]
    constructor
    · rintro ⟨f, hf, rfl⟩
      exact ⟨f, rfl, by simpa using (List.mem_filter.mp hf).2⟩
    · rintro ⟨f, rfl, hf⟩
      exact ⟨f, List.mem_filter.mpr ⟨Vocabulary.complete f, by simpa using hf⟩, rfl⟩

/-- A policy with a grace below the floor. -/
def shortGrace : NodeBudgetPolicySpec where
  thresholds := some [
    { signal := word .memoryAvailable, warnThreshold := some 30, admitStopThreshold := some 20 }]
  tier1GraceSeconds := some 5

theorem policyAdmission_agrees_shortGrace :
    shortGrace.Validate = .ok () ∧ (applyFloors shortGrace).1.Validate = .ok () ∧
      NodeBudgetPolicySpec.schema.accepts
        (NodeBudgetPolicySpec.goType.encode shortGrace) = false := by
  have hvalid : shortGrace.Validate = .ok () := by decide +kernel
  have hagrees := policyAdmission_agrees shortGrace
  refine ⟨hvalid, (hagrees.2 hvalid).1, Bool.eq_false_iff.mpr fun haccepted => ?_⟩
  exact absurd (hagrees.1.mp haccepted).2.1 (by decide)

end K3smApis.Budget
