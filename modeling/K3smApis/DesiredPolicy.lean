import K3smApis.GoJsonReads
import K3smApis.PolicySchema
import K3smApis.PolicySelection
import K3smApis.ReportRoundTrip

/-!
# The desired policy over the annotation

The relay writes the policy `SelectPolicy` chose on the node with `Encode`; the node reads it
with `ParseNodeBudgetDesiredPolicy` and applies the floors. The strings of a node selector are
the one part of the payload no check restricts, so the size of the payload is not bounded by
its validity.
-/
namespace K3smApis.Budget
open Check GoJson Json

/-- `NodeBudgetDesiredPolicy.Validate`. -/
def NodeBudgetDesiredPolicy.validate (d : NodeBudgetDesiredPolicy) : Except BudgetError Unit := do
  refuseIf (d.schema ≠ budgetAnnotationSchema)
    ⟨[.unknownBudgetSchema], [.s "desired schema ", .d d.schema.toInt, .s ", want ",
      .d budgetAnnotationSchema.toInt]⟩
  refuseIf (isObjectName d.name = false)
    (invalidPayload [.s "desired name ", .q d.name, .s " is not an object name"])
  refuseIf (isPrintableASCII d.resourceVersion maxPolicyResourceVersionBytes = false)
    (invalidPayload [.s "desired resourceVersion is not 1..", .d maxPolicyResourceVersionBytes,
      .s " printable ASCII bytes"])
  wrapped [.budgetAnnotationInvalid, .invalidNodeBudgetPolicy] d.spec.validate

/-- `ParseNodeBudgetDesiredPolicy`. -/
def parseNodeBudgetDesiredPolicy (value : GoString) : Except BudgetError NodeBudgetDesiredPolicy :=
  do
  let d ← decodeBudgetAnnotation NodeBudgetDesiredPolicy.goType value
  d.validate
  .ok d

/-- `NodeBudgetDesiredPolicy.Encode`. -/
def NodeBudgetDesiredPolicy.encode (d : NodeBudgetDesiredPolicy) : Except BudgetError GoString := do
  d.validate
  let s ← encodeBudgetAnnotation NodeBudgetDesiredPolicy.goType d
  let _ ← parseNodeBudgetDesiredPolicy s
  .ok s

/-- A policy that was written and read again: a selector and a list of thresholds with no
entry are left out of the text and read as nil. -/
def NodeBudgetPolicySpec.nilEmpty (s : NodeBudgetPolicySpec) : NodeBudgetPolicySpec :=
  { s with
    nodeSelector := s.nodeSelector.filter (fun m => m.entries ≠ [])
    thresholds := appended s.thresholds.list }

def NodeBudgetDesiredPolicy.nilEmpty (d : NodeBudgetDesiredPolicy) : NodeBudgetDesiredPolicy :=
  { d with spec := d.spec.nilEmpty }

/-- The strings of the selector are UTF-8, as the API server keeps them. -/
def NodeBudgetPolicySpec.TextSelector (s : NodeBudgetPolicySpec) : Prop :=
  ∀ e ∈ (labelsOf s.nodeSelector).entries, WellFormed e.1 ∧ WellFormed e.2

theorem labelsOf_nilEmpty (s : NodeBudgetPolicySpec) :
    labelsOf s.nilEmpty.nodeSelector = labelsOf s.nodeSelector := by
  cases hs : s.nodeSelector with
  | none => simp [NodeBudgetPolicySpec.nilEmpty, hs]
  | some m =>
    obtain ⟨es, hsorted⟩ := m
    cases es with
    | nil => simp [NodeBudgetPolicySpec.nilEmpty, hs, labelsOf, StringMap.empty, Option.filter]
    | cons e es => simp [NodeBudgetPolicySpec.nilEmpty, hs, Option.filter]

theorem NodeBudgetPolicySpec.Valid.nilEmpty {s : NodeBudgetPolicySpec} (h : s.Valid) :
    s.nilEmpty.Valid where
  labelCount := by rw [labelsOf_nilEmpty]; exact h.labelCount
  thresholdCount := by
    show (appended s.thresholds.list).list.length ≤ _
    rw [appended_list]
    exact h.thresholdCount
  thresholds := by
    show ∀ t ∈ (appended s.thresholds.list).list, _
    rw [appended_list]
    exact h.thresholds
  distinct := by
    show ((appended s.thresholds.list).list.map _).Nodup
    rw [appended_list]
    exact h.distinct
  reserves := h.reserves
  history := h.history
  mode := h.mode
  deliveries := h.deliveries
  psiHeldPermille := h.psiHeldPermille

/-- What the checks of the payload establish. -/
structure NodeBudgetDesiredPolicy.Valid (d : NodeBudgetDesiredPolicy) : Prop where
  schema : d.schema = budgetAnnotationSchema
  name : isObjectName d.name = true
  version : isPrintableASCII d.resourceVersion maxPolicyResourceVersionBytes = true
  spec : d.spec.Valid

theorem NodeBudgetDesiredPolicy.validate_ok {d : NodeBudgetDesiredPolicy} :
    d.validate = .ok () ↔ d.Valid := by
  simp only [NodeBudgetDesiredPolicy.validate, bind_ok, refuseIf_ok, wrapped_ok, not_not,
    Bool.not_eq_false, NodeBudgetPolicySpec.validate_ok]
  constructor
  · rintro ⟨hschema, hname, hversion, hspec⟩
    exact ⟨hschema, hname, hversion, hspec⟩
  · rintro ⟨hschema, hname, hversion, hspec⟩
    exact ⟨hschema, hname, hversion, hspec⟩

theorem NodeBudgetDesiredPolicy.Valid.nilEmpty {d : NodeBudgetDesiredPolicy} (h : d.Valid) :
    d.nilEmpty.Valid :=
  ⟨h.schema, h.name, h.version, h.spec.nilEmpty⟩

theorem field_int32Ptr (x : Option Int32) : FieldEncodes .empty (.ptr int32) x x 20 :=
  field_pointer fun v _ => ⟨encodes_int32 v, fun h => by cases h⟩

theorem SignalThresholds.Valid.encodes {t : SignalThresholds} (h : t.Valid) :
    Encodes SignalThresholds.goType t t 600 :=
  encodes_struct [19, 20, 20, 20, 20, 20, 20, 20, 20, 20, 20, 20, 20, 20, 20] (by decide)
    (by decide) rfl (by decide)
    ⟨field_never (encodes_enum h.signal (by decide)), field_int64Ptr _, field_int64Ptr _,
      field_int64Ptr _, field_int64Ptr _, field_int64Ptr _, field_int64Ptr _, field_int64Ptr _,
      field_int64Ptr _, field_int64Ptr _, field_int64Ptr _, field_int64Ptr _, field_int64Ptr _,
      field_int64Ptr _, field_int64Ptr _, trivial⟩

theorem BudgetReserves.encodes (r : BudgetReserves) : Encodes goType r r 150 :=
  encodes_struct [20, 20, 20] (by decide) (by decide) rfl (by decide)
    ⟨field_int64Ptr _, field_int64Ptr _, field_int64Ptr _, trivial⟩

theorem BudgetHistory.encodes (h : BudgetHistory) : Encodes goType h h 150 :=
  encodes_struct [20, 20, 20] (by decide) (by decide) rfl (by decide)
    ⟨field_int64Ptr _, field_int64Ptr _, field_int32Ptr _, trivial⟩

/-- A selector is left out when it has no label. -/
theorem field_selector {s : NodeBudgetPolicySpec} (h : s.TextSelector) :
    FieldReadsBack .empty .stringMap s.nodeSelector s.nilEmpty.nodeSelector := by
  have htext := h
  unfold NodeBudgetPolicySpec.TextSelector at htext
  unfold NodeBudgetPolicySpec.nilEmpty
  cases hs : s.nodeSelector with
  | none => rfl
  | some m =>
    rw [hs] at htext
    obtain ⟨es, hsorted⟩ := m
    cases es with
    | nil => rfl
    | cons e es => exact ReadsBack.stringMap htext

theorem NodeBudgetPolicySpec.Valid.readsBack {s : NodeBudgetPolicySpec} (h : s.Valid)
    (htext : s.TextSelector) : ReadsBack NodeBudgetPolicySpec.goType s s.nilEmpty :=
  ReadsBack.struct (by decide) (by decide +kernel)
    ⟨field_selector htext, (field_int32 _).readsBack,
      (field_slice_self (fun t ht => (h.thresholds t ht).encodes) le_rfl).readsBack,
      (field_pointer fun r _ => ⟨r.encodes, encode_struct_ne_null r⟩).readsBack,
      (field_pointer fun r _ => ⟨r.encodes, encode_struct_ne_null r⟩).readsBack,
      (field_enum h.mode (n := 6) (by decide)).readsBack, (field_int64Ptr _).readsBack,
      (field_int64Ptr _).readsBack, (field_int32Ptr _).readsBack, (field_int64Ptr _).readsBack,
      (field_int32Ptr _).readsBack, trivial⟩

theorem NodeBudgetDesiredPolicy.Valid.readsBack {d : NodeBudgetDesiredPolicy} (h : d.Valid)
    (htext : d.spec.TextSelector) : ReadsBack NodeBudgetDesiredPolicy.goType d d.nilEmpty := by
  have hname := (isDotted_of_isObjectName h.name).1
  have hversion := (plain_of_isPrintableASCII h.version).1
  exact ReadsBack.struct (by decide) (by decide +kernel)
    ⟨(encodes_int64 _).readsBack, (encodes_isDotted hname).readsBack,
      (encodes_string hversion).readsBack, h.spec.readsBack htext, trivial⟩

/-- There are seven signals. -/
theorem NodeBudgetPolicySpec.Valid.thresholds_le {s : NodeBudgetPolicySpec} (h : s.Valid) :
    s.thresholds.list.length ≤ 7 := by
  have hsub : s.thresholds.list.map SignalThresholds.signal ⊆ signalCodes := by
    intro id hid
    obtain ⟨t, ht, rfl⟩ := List.mem_map.mp hid
    obtain ⟨v, hv⟩ := (h.thresholds t ht).signal
    rw [hv]
    exact List.mem_map_of_mem (Vocabulary.complete v)
  have hle := (h.distinct.subperm hsub).length_le
  rwa [List.length_map] at hle

/-- A policy for all nodes has a bounded size. -/
theorem NodeBudgetPolicySpec.Valid.encodes {s : NodeBudgetPolicySpec} (h : s.Valid)
    (hall : s.nodeSelector = none) :
    Encodes NodeBudgetPolicySpec.goType s s.nilEmpty 5000 := by
  have hselector : FieldEncodes .empty .stringMap s.nodeSelector s.nilEmpty.nodeSelector 0 := by
    unfold NodeBudgetPolicySpec.nilEmpty
    rw [hall]
    rfl
  exact encodes_struct [0, 20, 7 * (600 + 1) + 2, 150, 150, 6, 20, 20, 20, 20, 20] (by decide)
    (by decide) rfl (by decide)
    ⟨hselector, field_int32 _,
      field_slice_self (fun t ht => (h.thresholds t ht).encodes) h.thresholds_le,
      field_pointer fun r _ => ⟨r.encodes, encode_struct_ne_null r⟩,
      field_pointer fun r _ => ⟨r.encodes, encode_struct_ne_null r⟩,
      field_enum h.mode (by decide), field_int64Ptr _, field_int64Ptr _, field_int32Ptr _,
      field_int64Ptr _, field_int32Ptr _, trivial⟩

theorem NodeBudgetDesiredPolicy.Valid.length_le {d : NodeBudgetDesiredPolicy} (h : d.Valid)
    (hall : d.spec.nodeSelector = none) :
    (NodeBudgetDesiredPolicy.goType.encode d).print.length ≤ maxBudgetAnnotationBytes := by
  obtain ⟨hdotted, hlen⟩ := isDotted_of_isObjectName h.name
  obtain ⟨hplain, hshort⟩ := plain_of_isPrintableASCII h.version
  have hversion : Encodes string d.resourceVersion d.resourceVersion (6 * 64 + 2) :=
    (encodes_string hplain).mono (Nat.add_le_add_right (Nat.mul_le_mul_left 6 hshort) 2)
  have hencodes : Encodes NodeBudgetDesiredPolicy.goType d d.nilEmpty maxBudgetAnnotationBytes :=
    encodes_struct [20, 255, 6 * 64 + 2, 5000] (by decide) (by decide) rfl (by decide)
      ⟨field_never (encodes_int64 _),
        field_never ((encodes_isDotted hdotted).mono (Nat.add_le_add_right hlen 2)),
        field_never hversion, field_never (h.spec.encodes hall), trivial⟩
  exact hencodes.length

theorem NodeBudgetDesiredPolicy.leaves : goType.Leaves NumbersFit := by
  have hstr (s : GoString) : NumbersFit (.str s) := numbersFit_of_lexeme rfl rfl
  simp only [goType, NodeBudgetPolicySpec.goType, SignalThresholds.goType, BudgetReserves.goType,
    BudgetHistory.goType, GoType.Leaves, Fields.Leaves, enum, string, leaves_int64, leaves_int32,
    leaves_text, hstr, implies_true, and_self]

theorem NodeBudgetDesiredPolicy.probeSchema_encode {d : NodeBudgetDesiredPolicy}
    (h : d.schema = budgetAnnotationSchema) :
    probeSchema (goType.encode d) = some (some (.num [0x31])) := by
  have hone : Decimal.ofInt d.schema.toInt = [0x31] := by
    rw [h]
    decide
  have hname : foldName (lit "name") ≠ foldName (lit "schema") := by decide
  have hversion : foldName (lit "resourceVersion") ≠ foldName (lit "schema") := by decide
  have hspec : foldName (lit "spec") ≠ foldName (lit "schema") := by decide
  have hencode : goType.encode d = .obj [(lit "schema", .num (Decimal.ofInt d.schema.toInt)),
      (lit "name", .str d.name), (lit "resourceVersion", .str d.resourceVersion),
      (lit "spec", NodeBudgetPolicySpec.goType.encode d.spec)] := rfl
  simp [hencode, hone, probeSchema, hname, hversion, hspec]

/-- What is written within the bound is parsed. -/
theorem NodeBudgetDesiredPolicy.Valid.parse {d : NodeBudgetDesiredPolicy} (h : d.Valid)
    (htext : d.spec.TextSelector)
    (hlen : (NodeBudgetDesiredPolicy.goType.encode d).print.length ≤ maxBudgetAnnotationBytes) :
    parseNodeBudgetDesiredPolicy (NodeBudgetDesiredPolicy.goType.encode d).print =
      .ok d.nilEmpty := by
  have hreads := h.readsBack htext
  have hnumbers : NumbersFit (NodeBudgetDesiredPolicy.goType.encode d) :=
    NodeBudgetDesiredPolicy.goType.encode_of_leaves numbersFit_ofParts
      NodeBudgetDesiredPolicy.leaves d
  have hdecode : decodeBudgetAnnotation NodeBudgetDesiredPolicy.goType
      (NodeBudgetDesiredPolicy.goType.encode d).print = .ok d.nilEmpty := by
    refine decodeBudgetAnnotation_ok.mpr ⟨hlen, NodeBudgetDesiredPolicy.goType.encode d,
      Json.parse_eq_some.mp hreads.parse, NodeBudgetDesiredPolicy.probeSchema_encode h.schema, ?_,
      NodeBudgetDesiredPolicy.goType.encode_keysDistinct NodeBudgetDesiredPolicy.namesDistinct d,
      hnumbers,
      NodeBudgetDesiredPolicy.goType.encode_exactKeys NodeBudgetDesiredPolicy.namesDistinct d⟩
    rw [GoType.decode_encode NodeBudgetDesiredPolicy.namesDistinct]
    exact hreads.reads
  rw [parseNodeBudgetDesiredPolicy, hdecode]
  show (d.nilEmpty.validate >>= fun _ => _) = _
  rw [NodeBudgetDesiredPolicy.validate_ok.mpr h.nilEmpty]
  rfl

theorem NodeBudgetDesiredPolicy.Valid.encode_of_le {d : NodeBudgetDesiredPolicy} (h : d.Valid)
    (htext : d.spec.TextSelector)
    (hlen : (NodeBudgetDesiredPolicy.goType.encode d).print.length ≤ maxBudgetAnnotationBytes) :
    d.encode = .ok (NodeBudgetDesiredPolicy.goType.encode d).print := by
  rw [NodeBudgetDesiredPolicy.encode, NodeBudgetDesiredPolicy.validate_ok.mpr h,
    encodeBudgetAnnotation_of_le hlen]
  show (parseNodeBudgetDesiredPolicy _ >>= fun _ => _) = _
  rw [h.parse htext hlen]
  rfl

theorem NodeBudgetDesiredPolicy.Valid.encode_of_lt {d : NodeBudgetDesiredPolicy} (h : d.Valid)
    (hlen : maxBudgetAnnotationBytes < (NodeBudgetDesiredPolicy.goType.encode d).print.length) :
    FailsWith .budgetAnnotationTooLarge d.encode := by
  have hlarge : encodeBudgetAnnotation NodeBudgetDesiredPolicy.goType d = .error
      ⟨[.budgetAnnotationInvalid, .budgetAnnotationTooLarge],
        [.s "payload is ", .d (NodeBudgetDesiredPolicy.goType.encode d).print.length,
          .s " bytes, at most ", .d maxBudgetAnnotationBytes]⟩ := if_pos hlen
  rw [NodeBudgetDesiredPolicy.encode, NodeBudgetDesiredPolicy.validate_ok.mpr h, hlarge]
  exact ⟨_, rfl, .tail _ (.head _)⟩

/-- The payload the relay writes for a policy. -/
def NodeBudgetPolicy.desired {M : Type} (p : NodeBudgetPolicy M) (resourceVersion : GoString) :
    NodeBudgetDesiredPolicy :=
  { schema := budgetAnnotationSchema, name := p.name, resourceVersion, spec := p.spec }

variable {M : Type}

theorem selectPolicy_mem {policies : List (NodeBudgetPolicy M)} {nodeLabels : Option StringMap}
    {p : NodeBudgetPolicy M} (h : (selectPolicy policies nodeLabels).1 = some p) :
    p ∈ policies ∧ p.spec.selects nodeLabels = true := by
  have hranked : p ∈ ranked policies nodeLabels := by
    rw [selectPolicy_eq] at h
    cases hr : ranked policies nodeLabels with
    | nil =>
      rw [hr] at h
      cases h
    | cons winner rest =>
      rw [hr] at h
      obtain rfl := Option.some.inj h
      exact .head _
  obtain ⟨hmem, hselects⟩ := mem_ranked.mp hranked
  exact ⟨hmem, selects_iff.mpr hselects⟩

/-- Where nothing is past a floor the policy stays as it is. -/
theorem applyFloors_self {s : NodeBudgetPolicySpec} (h : s.WithinFloors) :
    applyFloors s = (s, none) := by
  have hclamp {T : Type} {f : PolicyField} {past : T → Bool} {bound : T} {p : Option T}
      (hp : ∀ v ∈ p, past v = false) : clamp f past bound p = (p, []) := by
    cases p with
    | none => rfl
    | some v => simp [clamp, hp v rfl]
  have hraise {f : PolicyField} (floor : Int64) {p : Option Int64}
      (hp : ∀ n ∈ p, floor.toInt ≤ n.toInt) : raise f p floor = (p, []) :=
    hclamp fun v hv => decide_eq_false (Int64.not_lt.mpr (Int64.le_iff_toInt_le.mpr (hp v hv)))
  have hcap {f : PolicyField} : clamp f (fun v => decide (maxTier1DeliveriesPerHour < v))
      maxTier1DeliveriesPerHour s.tier1MaxDeliveriesPerHour = (s.tier1MaxDeliveriesPerHour, []) :=
    hclamp fun v hv =>
      decide_eq_false (Int32.not_lt.mpr (Int32.le_iff_toInt_le.mpr (h.deliveries v hv)))
  simp only [applyFloors, hraise minTier1GraceSeconds h.grace, hraise minTier1HeldSeconds h.held,
    hraise minTier1CooloffSeconds h.cooloff, hcap]
  rfl

theorem selects_nilEmpty (s : NodeBudgetPolicySpec) (nodeLabels : Option StringMap) :
    s.nilEmpty.selects nodeLabels = s.selects nodeLabels := by
  rw [NodeBudgetPolicySpec.selects, labelsOf_nilEmpty]
  rfl

/-- Policies the API server admitted, one of them chosen for a node and relayed: `Encode`
refuses it for its size only, and never when it selects all nodes. What the node parses is the
chosen policy; it selects the same nodes, this one among them, and no floor clamps it. Whatever
text the node finds instead, a policy it parses is valid and within the floors once they are
applied. -/
theorem admitted_policy_arrives (policies : List (NodeBudgetPolicy M))
    (nodeLabels : Option StringMap) (p : NodeBudgetPolicy M) (resourceVersion : GoString)
    (hadmitted : ∀ q ∈ policies, NodeBudgetPolicySpec.schema.accepts
      (NodeBudgetPolicySpec.goType.encode q.spec) = true ∧ q.spec.TextSelector ∧
      isObjectName q.name = true)
    (hversion : isPrintableASCII resourceVersion maxPolicyResourceVersionBytes = true)
    (hchosen : (selectPolicy policies nodeLabels).1 = some p) :
    let d := p.desired resourceVersion
    let size := (NodeBudgetDesiredPolicy.goType.encode d).print.length
    (size ≤ maxBudgetAnnotationBytes → ∃ s, d.encode = .ok s ∧
      parseNodeBudgetDesiredPolicy s = .ok d.nilEmpty ∧
      d.nilEmpty.spec.selects nodeLabels = true ∧
      (∀ labels, d.nilEmpty.spec.selects labels = p.spec.selects labels) ∧
      applyFloors d.nilEmpty.spec = (d.nilEmpty.spec, none)) ∧
    (maxBudgetAnnotationBytes < size → FailsWith .budgetAnnotationTooLarge d.encode) ∧
    (p.spec.nodeSelector = none → size ≤ maxBudgetAnnotationBytes) ∧
    ∀ value d', parseNodeBudgetDesiredPolicy value = .ok d' →
      (applyFloors d'.spec).1.Validate = .ok () ∧ (applyFloors d'.spec).1.WithinFloors := by
  intro d size
  obtain ⟨hmem, hselects⟩ := selectPolicy_mem hchosen
  obtain ⟨haccepted, htext, hname⟩ := hadmitted p hmem
  obtain ⟨hspec, hfloors, -⟩ := NodeBudgetPolicySpec.schema_accepts.mp haccepted
  have hvalid : d.Valid := ⟨rfl, hname, hversion, hspec⟩
  refine ⟨fun hlen => ?_, hvalid.encode_of_lt, hvalid.length_le, fun value d' hparse => ?_⟩
  · refine ⟨_, hvalid.encode_of_le htext hlen, hvalid.parse htext hlen, ?_,
      selects_nilEmpty p.spec, applyFloors_self ⟨hfloors.grace, hfloors.held, hfloors.deliveries,
        hfloors.cooloff⟩⟩
    exact (selects_nilEmpty p.spec nodeLabels).trans hselects
  · rw [parseNodeBudgetDesiredPolicy] at hparse
    obtain ⟨d₁, -, hrest⟩ := except_bind_ok.mp hparse
    obtain ⟨u, hchecked, hsame⟩ := except_bind_ok.mp hrest
    cases hsame
    have hparsed := (NodeBudgetDesiredPolicy.validate_ok.mp hchecked).spec
    exact ⟨NodeBudgetPolicySpec.Validate_ok.mpr hparsed.applyFloors, applyFloors_within d'.spec⟩

theorem gpuLabels_sorted :
    [(lit "gpu", lit "yes")].Pairwise (fun a b => a.1.less b.1) :=
  List.pairwise_singleton _ _

def gpuLabels : StringMap := ⟨[(lit "gpu", lit "yes")], gpuLabels_sorted⟩

/-- A policy for nodes with a GPU, over one for all nodes. -/
def gpuPolicies : List (NodeBudgetPolicy Unit) :=
  [⟨lit "base", (), { priority := 1, mode := word .off }⟩,
    ⟨lit "gpu", (), { priority := 9, nodeSelector := some gpuLabels }⟩]

theorem admitted_policy_arrives_gpu :
    ∃ p s, (selectPolicy gpuPolicies (some gpuLabels)).1 = some p ∧ p.name = lit "gpu" ∧
      (p.desired (lit "7")).encode = .ok s ∧
      parseNodeBudgetDesiredPolicy s = .ok (p.desired (lit "7")) := by
  have hchosen : (selectPolicy gpuPolicies (some gpuLabels)).1 = gpuPolicies[1]? := by rfl
  have harrives := admitted_policy_arrives gpuPolicies (some gpuLabels) _ (lit "7")
    (by
      intro q hq
      rcases List.mem_cons.mp hq with rfl | hq
      · refine ⟨by decide +kernel, ?_, by decide +kernel⟩
        show ∀ e ∈ ([] : List (GoString × GoString)), WellFormed e.1 ∧ WellFormed e.2
        simp
      · rw [List.mem_singleton.mp hq]
        refine ⟨by decide +kernel, ?_, by decide +kernel⟩
        show ∀ e ∈ [(lit "gpu", lit "yes")], WellFormed e.1 ∧ WellFormed e.2
        decide +kernel)
    (by decide +kernel) hchosen
  obtain ⟨s, hencode, hparse, -⟩ := harrives.1 (by decide +kernel)
  exact ⟨_, s, hchosen, rfl, hencode, hparse⟩

end K3smApis.Budget
