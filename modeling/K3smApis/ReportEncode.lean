import K3smApis.LeafEncode

/-!
# A report as it is written

The encoding of every struct of a valid report: its length, and what it is read back as. A
time comes back as its second in the local zone and an empty slice as nil; everything else
comes back as it was.
-/
namespace K3smApis.Budget
open GoJson Json

/-- The counters with an empty slice nil. -/
def BandCounters.nilEmpty (c : BandCounters) : BandCounters :=
  { c with windows := appended c.windows.list }

def AppliedPolicy.nilEmpty (p : AppliedPolicy) : AppliedPolicy :=
  { p with clampedFields := appended p.clampedFields.list }

/-- An observation with its empty slices nil. -/
def NodeBudgetObservation.nilEmpty (o : NodeBudgetObservation) : NodeBudgetObservation :=
  { o with
    signals := appended o.signals.list
    counters := appended (o.counters.list.map BandCounters.nilEmpty)
    policy := o.policy.map AppliedPolicy.nilEmpty }

def WouldKill.mapTime (f : Time → Time) (w : WouldKill) : WouldKill := { w with at_ := f w.at_ }

/-- The timestamps of an observation. -/
def NodeBudgetObservation.times (o : NodeBudgetObservation) : List Time :=
  o.observedAt :: (o.evictDeadline.toList ++ o.wouldKill.toList.map WouldKill.at_)

/-- An observation with each of its timestamps changed. -/
def NodeBudgetObservation.mapTimes (f : Time → Time) (o : NodeBudgetObservation) :
    NodeBudgetObservation :=
  { o with
    observedAt := f o.observedAt
    evictDeadline := o.evictDeadline.map f
    wouldKill := o.wouldKill.map (WouldKill.mapTime f) }

/-- The second of a time, in the local zone. -/
def Time.relayed (t : Time) : Time := Time.ofUnixLocal t.unix

/-- A report that was written and read again. -/
def NodeBudgetReport.relayed (r : NodeBudgetReport) : NodeBudgetReport :=
  { r with observation := (r.observation.mapTimes Time.relayed).nilEmpty }

theorem BudgetCapacity.encodes (c : BudgetCapacity) : Encodes goType c c 473 :=
  encodes_struct [20, 20, 20, 20, 20, 20, 20, 20, 20, 20, 5, 20] (by decide) (by decide) rfl
    (by decide)
    ⟨field_int64Ptr _, field_int64Ptr _, field_int64Ptr _, field_int64Ptr _, field_int64Ptr _,
      field_int64Ptr _, field_int64Ptr _, field_int64Ptr _, field_int64Ptr _, field_int64Ptr _,
      field_boolPtr _, field_int64Ptr _, trivial⟩

theorem zeroExact_capacity : BudgetCapacity.goType.ZeroExact := by
  simp only [BudgetCapacity.goType, GoType.ZeroExact, Fields.ZeroExact, and_self]

theorem BudgetSignal.Valid.encodes {s : BudgetSignal} (h : s.Valid) :
    Encodes BudgetSignal.goType s s 708 := by
  have hshared : UnsetOrKnown s.sharedWith := h.sharedWith.imp_right And.left
  exact encodes_struct [19, 10, 20, 20, 20, 20, 20, 20, 20, 20, 20, 20, 20, 20, 20, 20, 20, 9, 9,
      19] (by decide) (by decide) rfl (by decide)
    ⟨field_never (encodes_enum h.id (by decide)),
      field_never (encodes_enum h.unit_known (by decide)), field_int64Ptr _, field_int64Ptr _,
      field_int64Ptr _, field_int64Ptr _, field_int64Ptr _, field_int64Ptr _, field_int64Ptr _,
      field_int64Ptr _, field_int64Ptr _, field_int64Ptr _, field_int64Ptr _, field_int64Ptr _,
      field_int64Ptr _, field_int64Ptr _, field_int64Ptr _, field_openEnum h.trend (by decide),
      field_openEnum h.limitingResource (by decide), field_enum hshared (by decide),
      trivial⟩

theorem BudgetRecommendation.encodes {c : BudgetRecommendation} (h : UnsetOrKnown c.basis) :
    Encodes goType c c 73 :=
  encodes_struct [20, 19] (by decide) (by decide) rfl (by decide)
    ⟨field_int64Ptr _, field_enum h (by decide), trivial⟩

theorem zeroExact_recommendation : BudgetRecommendation.goType.ZeroExact := by
  simp only [BudgetRecommendation.goType, GoType.ZeroExact, Fields.ZeroExact, and_true, true_and]
  exact fun w h => text_eq_nil.mp (of_decide_eq_true h)

theorem KillMode.Valid.encodes {k : KillMode} (h : k.Valid) : Encodes KillMode.goType k k 91 :=
  encodes_struct [6, 5, 20, 13] (by decide) (by decide) rfl (by decide)
    ⟨field_enum h.mode_known (by decide), field_bool _, field_int32 _,
      field_openEnum h.reason (by decide), trivial⟩

theorem zeroExact_killMode : KillMode.goType.ZeroExact := by
  simp only [KillMode.goType, GoType.ZeroExact, Fields.ZeroExact, and_true]
  exact ⟨fun w h => text_eq_nil.mp (of_decide_eq_true h), fun b h => by cases b <;> simp_all,
    fun n h => of_decide_eq_true h, fun w h => text_eq_nil.mp (of_decide_eq_true h)⟩

theorem WouldKill.Valid.encodes {w : WouldKill} (h : w.Valid)
    (hyears : Rfc3339.InYears w.at_.sec.toInt) :
    Encodes WouldKill.goType w (w.mapTime Time.relayed) 73 :=
  encodes_struct [10, 15, 22] (by decide) (by decide) rfl (by decide)
    ⟨field_never (encodes_enum h.band (by decide)),
      field_never (encodes_openEnum h.reason (by decide)),
      field_never (encodes_time h.set hyears), trivial⟩

theorem WindowCount.Valid.encodes {w : WindowCount} (h : w.Valid) :
    Encodes WindowCount.goType w w 71 :=
  encodes_struct [5, 15, 20] (by decide) (by decide) rfl (by decide)
    ⟨field_never (encodes_enum h.window (by decide)),
      field_never (encodes_openEnum h.reason (by decide)), field_never (encodes_int64 _), trivial⟩

theorem BandCounters.Valid.encodes {c : BandCounters} (h : c.Valid) :
    Encodes BandCounters.goType c c.nilEmpty 1132 :=
  encodes_struct [10, 20, 20, 20, 20, 20, 20, 12 * (71 + 1) + 2] (by decide) (by decide) rfl
    (by decide)
    ⟨field_never (encodes_enum h.band (by decide)), field_never (encodes_int64 _),
      field_never (encodes_int64 _), field_never (encodes_int64 _), field_never (encodes_int64 _),
      field_never (encodes_int64 _), field_never (encodes_int64 _),
      field_slice_self (fun w hw => (h.windows w hw).encodes) h.length, trivial⟩

theorem DarwinCompressor.encodes (c : DarwinCompressor) : Encodes goType c c 111 :=
  encodes_struct [20, 20, 20] (by decide) (by decide) rfl (by decide)
    ⟨field_int64Ptr _, field_int64Ptr _, field_int64Ptr _, trivial⟩

theorem DarwinSignals.encodes (d : DarwinSignals) : Encodes goType d d 288 :=
  encodes_struct [20, 20, 111, 20, 20] (by decide) (by decide) rfl (by decide)
    ⟨field_int64Ptr _, field_int64Ptr _,
      field_pointer fun c _ => ⟨c.encodes, encode_struct_ne_null c⟩, field_int64Ptr _,
      field_int64Ptr _, trivial⟩

theorem PSILine.encodes (l : PSILine) : Encodes goType l l 107 :=
  encodes_struct [20, 20, 20] (by decide) (by decide) rfl (by decide)
    ⟨field_int64Ptr _, field_int64Ptr _, field_int64Ptr _, trivial⟩

theorem PSIResource.encodes (r : PSIResource) : Encodes goType r r 232 :=
  encodes_struct [107, 107] (by decide) (by decide) rfl (by decide)
    ⟨field_pointer fun l _ => ⟨l.encodes, encode_struct_ne_null l⟩,
      field_pointer fun l _ => ⟨l.encodes, encode_struct_ne_null l⟩, trivial⟩

theorem LinuxPSI.encodes (p : LinuxPSI) : Encodes goType p p 721 :=
  encodes_struct [232, 232, 232] (by decide) (by decide) rfl (by decide)
    ⟨field_pointer fun r _ => ⟨r.encodes, encode_struct_ne_null r⟩,
      field_pointer fun r _ => ⟨r.encodes, encode_struct_ne_null r⟩,
      field_pointer fun r _ => ⟨r.encodes, encode_struct_ne_null r⟩, trivial⟩

theorem LinuxMemoryEvents.encodes (e : LinuxMemoryEvents) : Encodes goType e e 115 :=
  encodes_struct [20, 20, 20, 20] (by decide) (by decide) rfl (by decide)
    ⟨field_int64Ptr _, field_int64Ptr _, field_int64Ptr _, field_int64Ptr _, trivial⟩

theorem LinuxSignals.encodes (l : LinuxSignals) : Encodes goType l l 861 :=
  encodes_struct [721, 115] (by decide) (by decide) rfl (by decide)
    ⟨field_pointer fun p _ => ⟨p.encodes, encode_struct_ne_null p⟩,
      field_pointer fun e _ => ⟨e.encodes, encode_struct_ne_null e⟩, trivial⟩

theorem isDotted_of_isObjectName {s : GoString} (h : isObjectName s = true) :
    DnsName.IsDotted s ∧ s.length ≤ 253 := by
  obtain ⟨hlen, hmatch⟩ := of_decide_eq_true h
  rw [RegularExpression.rmatch_iff_matches'] at hmatch
  exact ⟨(DnsName.mem_subdomain.mp hmatch).isDotted, hlen⟩

theorem plain_of_isPrintableASCII {s : GoString} {max : ℕ} (h : isPrintableASCII s max = true) :
    Plain s ∧ s.length ≤ max := by
  obtain ⟨-, hlen, hall⟩ := of_decide_eq_true h
  exact ⟨fun b hb => of_decide_eq_true (List.all_eq_true.mp hall b hb), hlen⟩

/-- The two fields of a policy reference. -/
theorem PolicyRef.Valid.fields {r : PolicyRef} (h : r.Valid) :
    PolicyRef.fields.Encodes (PolicyRef.equiv r) (PolicyRef.equiv r) [255, 6 * 64 + 2] := by
  obtain ⟨hdotted, hlen⟩ := isDotted_of_isObjectName h.name
  exact ⟨field_never ((encodes_isDotted hdotted).mono (Nat.add_le_add_right hlen 2)),
    field_string (h.version.imp_right plain_of_isPrintableASCII), trivial⟩

theorem PolicyRef.Valid.encodes {r : PolicyRef} (h : r.Valid) :
    Encodes PolicyRef.goType r r 670 :=
  encodes_struct [255, 6 * 64 + 2] (by decide) (by decide) rfl (by decide) h.fields

theorem AppliedPolicy.Valid.encodes {p : AppliedPolicy} (h : p.Valid) :
    Encodes AppliedPolicy.goType p p.nilEmpty 990 :=
  encodes_struct [255, 6 * 64 + 2, 10, 8 * (34 + 1) + 2] (by decide) (by decide) rfl (by decide)
    ⟨h.ref.fields, field_never (encodes_enum h.outcome (by decide)),
      field_slice_self (fun f hf => encodes_enum (h.fields f hf) (by decide)) h.length, trivial⟩

/-- There are seven signals. -/
theorem NodeBudgetObservation.Valid.signals_le {o : NodeBudgetObservation} (h : o.Valid) :
    o.signals.list.length ≤ 7 := by
  have hsub : o.signals.list.map BudgetSignal.id ⊆ signalCodes := by
    intro id hid
    obtain ⟨s, hs, rfl⟩ := List.mem_map.mp hid
    obtain ⟨v, hv⟩ := (h.signals s hs).id
    rw [hv]
    exact List.mem_map_of_mem (Vocabulary.complete v)
  have hle := (h.signalsDistinct.subperm hsub).length_le
  rwa [List.length_map] at hle

/-- The bounds of the fields of an observation, in their order. -/
def NodeBudgetObservation.sizes : List ℕ :=
  [22, 20, 8, 10, 5, 19, 22, 473, 7 * (708 + 1) + 2, 73, 91, 73, 3 * (1132 + 1) + 2, 990, 670, 288,
    861]

theorem field_time {t : Time} (hset : t.isZero = false) (hyears : Rfc3339.InYears t.sec.toInt) :
    FieldEncodes .zero time t t.relayed 22 := by
  have hkept : Omit.zero.omits time t = false := hset
  rw [FieldEncodes, if_neg (by rw [hkept]; exact Bool.false_ne_true)]
  exact encodes_time hset hyears

theorem encode_time_ne_null {t : Time} (hset : t.isZero = false) : time.encode t ≠ .null := by
  show encodeTime t ≠ .null
  rw [encodeTime, if_neg (by simp [hset])]
  exact fun h => by cases h

theorem NodeBudgetObservation.Valid.fields {o : NodeBudgetObservation} (h : o.Valid)
    (hyears : ∀ t ∈ o.times, Rfc3339.InYears t.sec.toInt) :
    fields.Encodes (equiv o) (equiv (o.mapTimes Time.relayed).nilEmpty) sizes := by
  have hdeadline : ∀ t ∈ o.evictDeadline, Encodes time t t.relayed 22 := by
    intro t ht
    refine encodes_time (h.evictDeadline t ht) (hyears t ?_)
    exact .tail _ (List.mem_append_left _ (Option.mem_toList.mpr ht))
  have hkill : ∀ w ∈ o.wouldKill, Encodes WouldKill.goType w (w.mapTime Time.relayed) 73 := by
    intro w hw
    refine (h.wouldKill w hw).encodes (hyears _ ?_)
    exact .tail _ (List.mem_append_right _ (List.mem_map_of_mem (Option.mem_toList.mpr hw)))
  have hbands : List.Forall₂ (fun c d => Encodes BandCounters.goType c d 1132) o.counters.list
      (o.counters.list.map BandCounters.nilEmpty) :=
    List.forall₂_map_right_iff.mpr (List.forall₂_same.mpr fun c hc => (h.counters c hc).encodes)
  exact ⟨field_time h.observedAt (hyears _ (.head _)), field_int64 _,
    field_enum (.inr h.platform) (by decide), field_enum (.inr h.level) (by decide), field_bool _,
    field_enum h.admitReasonSignal (by decide),
    field_pointerMap fun t ht => ⟨hdeadline t ht, encode_time_ne_null (h.evictDeadline t ht)⟩,
    field_zero zeroExact_capacity (BudgetCapacity.encodes _),
    field_slice_self (fun s hs => (h.signals s hs).encodes) h.signals_le,
    field_zero zeroExact_recommendation (BudgetRecommendation.encodes h.basis),
    field_zero zeroExact_killMode h.killMode.encodes,
    field_pointerMap fun w hw => ⟨hkill w hw, encode_struct_ne_null w⟩,
    field_slice hbands h.counterCount,
    field_pointerMap fun p hp => ⟨(h.policy p hp).encodes, encode_struct_ne_null p⟩,
    field_pointer fun r hr => ⟨(h.inForce r hr).encodes, encode_struct_ne_null r⟩,
    field_pointer fun d _ => ⟨d.encodes, encode_struct_ne_null d⟩,
    field_pointer fun l _ => ⟨l.encodes, encode_struct_ne_null l⟩, trivial⟩

/-- Three quarters of the bound on a payload. -/
theorem NodeBudgetObservation.Valid.encodes_report {r : NodeBudgetReport} (h : r.observation.Valid)
    (hyears : ∀ t ∈ r.observation.times, Rfc3339.InYears t.sec.toInt) :
    Encodes NodeBudgetReport.goType r r.relayed 12288 :=
  encodes_struct (20 :: NodeBudgetObservation.sizes) (by decide) (by decide) rfl (by decide)
    ⟨field_never (encodes_int64 _), h.fields hyears, trivial⟩

end K3smApis.Budget
