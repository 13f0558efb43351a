import K3smApis.InterconnectPayload

/-!
# What an interconnect writer writes is read back

`Encode` does not parse its output again, so that the reader accepts it rests on the checks:
every string that is validated is printable ASCII, which encoding/json writes and reads back
whatever it escapes, and the size bound is one and the same.
-/
namespace K3smApis.Interconnect
open Check GoJson Budget

@[simp] theorem invalid_ok {c : Check} : invalid c = .ok () ↔ c = .ok () := by
  cases c <;> simp [invalid, Except.mapError]

theorem checkUUIDs_ok {field : String} {i : ℕ} {us : List GoString} :
    checkUUIDs field i us = .ok () ↔ ∀ u ∈ us, isDomainUUID u = true := by
  induction us generalizing i with
  | nil => simp [checkUUIDs]
  | cons u us ih =>
    rw [checkUUIDs, bind_ok, refuseIf_ok, ih, List.forall_mem_cons, Bool.not_eq_false]

/-- A report within the bounds of a reader. -/
structure InterconnectReport.Valid (r : InterconnectReport) : Prop where
  peers : r.reachablePeers.list.length ≤ maxInterconnectReportPeers
  peerUUIDs : r.peerDomainUUIDs.list.length ≤ maxInterconnectReportPeers
  localUUIDs : r.localDomainUUIDs.list.length ≤ maxInterconnectSlot + 1
  localShape : ∀ u ∈ r.localDomainUUIDs.list, isDomainUUID u = true
  peerShape : ∀ u ∈ r.peerDomainUUIDs.list, isDomainUUID u = true
  speed : ¬r.speedGbps < 0
  peerNames : ∀ p ∈ r.reachablePeers.list, isNodeName p = true
  peersDistinct : r.reachablePeers.list.Nodup

theorem InterconnectReport.check_ok {r : InterconnectReport} : r.check = .ok () ↔ r.Valid := by
  unfold check
  simp only [bind_ok, refuseIf_ok, checkUUIDs_ok, forEachDistinct_ok, not_lt, Bool.not_eq_false,
    and_true, List.map_id]
  constructor
  · rintro ⟨h1, h2, h3, h4, h5, h6, h7, h8⟩
    exact ⟨h1, h2, h3, h4, h5, by simpa using h6, h7, h8⟩
  · rintro ⟨h1, h2, h3, h4, h5, h6, h7, h8⟩
    exact ⟨h1, h2, h3, h4, h5, by simpa using h6, h7, h8⟩

/-- A model reference in shape. -/
structure InterconnectModelRef.Valid (m : InterconnectModelRef) : Prop where
  ns : isNamespaceName m.ns = true
  name : isNodeName m.name = true
  uid : isPrintableASCII m.uid maxInterconnectUIDBytes = true

theorem checkModels_ok {i : ℕ} {names uids : List GoString} {ms : List InterconnectModelRef}
    (h : checkModels i names uids ms = .ok ()) : ∀ m ∈ ms, m.Valid := by
  induction ms generalizing i names uids with
  | nil => simp
  | cons m ms ih =>
    simp only [checkModels, bind_ok, refuseIf_ok, Bool.not_eq_false] at h
    obtain ⟨hns, hname, huid, -, hrest⟩ := h
    exact List.forall_mem_cons.mpr ⟨⟨hns, hname, huid⟩, ih hrest⟩

theorem plain_of_isNodeName {s : GoString} (h : isNodeName s = true) :
    Json.Plain s ∧ s.length ≤ 253 := by
  obtain ⟨hlen, hmatch⟩ := of_decide_eq_true h
  rw [RegularExpression.rmatch_iff_matches', DnsName.mem_subdomain] at hmatch
  exact ⟨plain_of_isDotted hmatch.isDotted, hlen⟩

theorem plain_of_isNamespaceName {s : GoString} (h : isNamespaceName s = true) :
    Json.Plain s ∧ s.length ≤ 63 := by
  obtain ⟨hlen, hmatch⟩ := of_decide_eq_true h
  rw [RegularExpression.rmatch_iff_matches', DnsName.mem_label] at hmatch
  exact ⟨plain_of_isDotted hmatch.isDotted, hlen⟩

theorem plain_of_isPrintableASCII {s : GoString} {max : ℕ} (h : isPrintableASCII s max = true) :
    Json.Plain s ∧ s.length ≤ max := by
  obtain ⟨hlen, hall⟩ := of_decide_eq_true h
  refine ⟨fun b hb => ?_, not_lt.mp fun hlong => hlen (.inr hlong)⟩
  have hbyte := of_decide_eq_true (List.all_eq_true.mp hall b hb)
  rw [not_or, UInt8.not_lt, UInt8.not_lt] at hbyte
  exact hbyte

/-- A printable string of bounded length is encoded within one bound. -/
theorem encodes_bounded {s : GoString} {max : ℕ} (h : Json.Plain s ∧ s.length ≤ max) :
    Encodes string s s (6 * max + 2) :=
  (encodes_string h.1).mono (by have := h.2; omega)

/-- The report with its empty slices nil. -/
def InterconnectReport.nilEmpty (r : InterconnectReport) : InterconnectReport :=
  { r with
    localDomainUUIDs := appended r.localDomainUUIDs.list
    peerDomainUUIDs := appended r.peerDomainUUIDs.list
    reachablePeers := appended r.reachablePeers.list }

/-- The payload with its empty slices nil. -/
def InterconnectDesired.nilEmpty (d : InterconnectDesired) : InterconnectDesired :=
  { d with
    allowedNamespaces := appended d.allowedNamespaces.list
    mlxModels := appended d.mlxModels.list }

theorem InterconnectReport.Valid.encodes {r : InterconnectReport} (h : r.Valid) :
    ∃ n, Encodes goType r r.nilEmpty n :=
  ⟨_, Encodes.struct [20, 8 * 387 + 2, 16 * 387 + 2, 5, 20, 16 * 1521 + 2] (by decide) (by decide)
    rfl
    ⟨field_never (encodes_int64 _),
      field_slice_self (fun u hu => encodes_bounded (plain_of_isPrintableASCII (h.localShape u hu)))
        h.localUUIDs,
      field_slice_self (fun u hu => encodes_bounded (plain_of_isPrintableASCII (h.peerShape u hu)))
        h.peerUUIDs,
      field_never (encodes_bool _), field_int32 _,
      field_slice_self (fun p hp => encodes_bounded (plain_of_isNodeName (h.peerNames p hp)))
        h.peers, trivial⟩⟩

theorem InterconnectModelRef.Valid.encodes {m : InterconnectModelRef} (h : m.Valid) :
    Encodes goType m m
      (membersSize [lit "namespace", lit "name", lit "uid"] [380, 1520, 386] + 2) :=
  Encodes.struct [380, 1520, 386] (by decide) (by decide) rfl
    ⟨field_never (encodes_bounded (plain_of_isNamespaceName h.ns)),
      field_never (encodes_bounded (plain_of_isNodeName h.name)),
      field_never (encodes_bounded (plain_of_isPrintableASCII h.uid)), trivial⟩

/-- What a payload of the server needs to be written and read back. -/
structure InterconnectDesired.Valid (d : InterconnectDesired) : Prop where
  interconnect : isNodeName d.interconnect = true
  fallback : d.fallback = fallbackNetwork ∨ d.fallback = fallbackNone
  namespaces : d.allowedNamespaces.list.length ≤ maxInterconnectListItems
  models : d.mlxModels.list.length ≤ maxInterconnectListItems
  namespaceNames : ∀ n ∈ d.allowedNamespaces.list, isNamespaceName n = true
  modelRefs : ∀ m ∈ d.mlxModels.list, m.Valid

theorem InterconnectDesired.valid_of_check {d : InterconnectDesired} (h : d.check = .ok ()) :
    d.Valid := by
  unfold check at h
  simp only [bind_ok, refuseIf_ok, forEachDistinct_ok, not_lt, Bool.not_eq_false, not_not,
    and_true] at h
  obtain ⟨hinterconnect, hfallback, hnamespaces, hmodels, ⟨hnames, -⟩, hrefs⟩ := h
  exact ⟨hinterconnect, hfallback, hnamespaces, hmodels, hnames, checkModels_ok hrefs⟩

theorem InterconnectDesired.Valid.encodes {d : InterconnectDesired} (h : d.Valid) :
    ∃ n, Encodes goType d d.nilEmpty n := by
  have hfallback : Json.Plain d.fallback ∧ d.fallback.length ≤ 7 := by
    rcases h.fallback with heq | heq
    · rw [heq]; decide
    · rw [heq]; decide
  exact ⟨_, Encodes.struct [20, 1520, 44, 64 * 381 + 2,
      64 * (membersSize [lit "namespace", lit "name", lit "uid"] [380, 1520, 386] + 2 + 1) + 2]
    (by decide) (by decide) rfl
    ⟨field_never (encodes_int64 _),
      field_never (encodes_bounded (plain_of_isNodeName h.interconnect)),
      field_never (encodes_bounded hfallback),
      field_slice_self
        (fun n hn => encodes_bounded (plain_of_isNamespaceName (h.namespaceNames n hn)))
        h.namespaces,
      field_slice_self (fun m hm => (h.modelRefs m hm).encodes) h.models, trivial⟩⟩

/-- The schema is read on its own, past all other fields. -/
theorem probe_encode {S R : Type} {fs : Fields R} {e : S ≃ Int64 × R}
    (hnames : ∀ n ∈ fs.names, foldName n ≠ foldName (lit "schema")) (x : S) :
    probeType.unmarshal foldName
      ((GoType.struct (.field (lit "schema") .never int64 fs) e).encode x) =
        some (some (e x).1) := by
  have hobj : (GoType.struct (.field (lit "schema") .never int64 fs) e).encode x =
      .obj ((lit "schema", .num (Decimal.ofInt (e x).1.toInt)) :: fs.encode (e x).2) := by
    simp only [GoType.encode, Fields.encode, Omit.omits]
    rfl
  have hrest : (fs.encode (e x).2).filterMap (fun m => (resolve foldName [lit "schema"] m.1).map
      (fun n => (m.1, (Fields.field (lit "schema") .never (.ptr int64) .nil).knownAt foldName n
        m.2))) = [] := by
    rw [List.filterMap_eq_nil_iff]
    intro m hm
    have hfold := hnames m.1 (Fields.mem_names_of_mem_encode hm)
    have hne : m.1 ∉ [lit "schema"] := fun hin => hfold (by rw [List.mem_singleton.mp hin])
    rw [resolve, if_neg hne, List.find?_cons_of_neg (by simpa using Ne.symm hfold)]
    rfl
  have hknown : probeType.known foldName
      (.obj ((lit "schema", .num (Decimal.ofInt (e x).1.toInt)) :: fs.encode (e x).2)) =
      .obj [(lit "schema", .num (Decimal.ofInt (e x).1.toInt))] := by
    simp only [probeType, GoType.known, Fields.names, List.filterMap_cons, hrest]
    rfl
  have hschema : Encodes probeType (some (e x).1) (some (e x).1)
      (membersSize [lit "schema"] [20] + 2) :=
    Encodes.struct [20] (by decide) (by decide) rfl
      ⟨field_never ((encodes_int64 (e x).1).pointer (fun h => by cases h)), trivial⟩
  have hencode : probeType.encode (some (e x).1) =
      .obj [(lit "schema", .num (Decimal.ofInt (e x).1.toInt))] := by
    simp only [probeType, GoType.encode, Fields.encode, Omit.omits]
    rfl
  rw [hobj, GoType.unmarshal, hknown, ← hencode, GoType.decode_encode (by decide), hschema.reads]

/-- The reader decodes what was written within the bound under the current schema. -/
theorem decode_of_encodes {α : Type} {t : GoType α} {x y : α} {n : ℕ} (hnames : t.NamesDistinct)
    (h : Encodes t x y n)
    (hprobe : probeType.unmarshal foldName (t.encode x) = some (some interconnectAnnotationSchema))
    {s : GoString} (hs : encodeInterconnectAnnotation t x = .ok s) :
    decodeInterconnectAnnotation t s = .ok y := by
  simp only [bind_ok, refuseIf_ok, Except.ok.injEq, encodeInterconnectAnnotation] at hs
  obtain ⟨hlen, rfl⟩ := hs
  have hparse := Json.parse_print h.written
  have hpayload : t.unmarshal foldName (t.encode x) = some y := h.unmarshal hnames
  unfold decodeInterconnectAnnotation
  rw [bind_ok, refuseIf_ok, hparse, Option.bind_some, hprobe]
  refine ⟨hlen, ?_⟩
  rw [except_bind_ok]
  refine ⟨some interconnectAnnotationSchema, rfl, ?_⟩
  dsimp only
  rw [bind_ok, refuseIf_ok, Option.bind_some, hpayload]
  exact ⟨fun hne => hne rfl, rfl⟩

theorem InterconnectReport.validate_ok {r : InterconnectReport} :
    r.validate = .ok () ↔ r.schema = interconnectAnnotationSchema ∧ r.check = .ok () := by
  rw [validate, bind_ok, refuseIf_ok, invalid_ok, not_not]

theorem InterconnectDesired.validate_ok {d : InterconnectDesired} :
    d.validate = .ok () ↔ d.schema = interconnectAnnotationSchema ∧ d.check = .ok () := by
  rw [validate, bind_ok, refuseIf_ok, invalid_ok, not_not]

/-- The checks look at the elements of a slice only. -/
theorem InterconnectReport.check_nilEmpty (r : InterconnectReport) :
    r.nilEmpty.check = r.check := by
  unfold check nilEmpty
  simp only [appended_list]

theorem InterconnectDesired.check_nilEmpty (d : InterconnectDesired) :
    d.nilEmpty.check = d.check := by
  unfold check nilEmpty
  simp only [appended_list]

/-- Interconnect writers never write what a reader refuses: an encoded report or payload is
parsed back to the value itself, its empty slices nil. -/
theorem interconnect_read_back :
    (∀ (r : InterconnectReport) (s : GoString), r.encode = .ok s →
      parseInterconnectReport s = .ok r.nilEmpty) ∧
    ∀ (d : InterconnectDesired) (s : GoString), d.encode = .ok s →
      parseInterconnectDesired s = .ok d.nilEmpty := by
  constructor
  · intro r s h
    rw [InterconnectReport.encode, bind_ok, InterconnectReport.validate_ok] at h
    obtain ⟨⟨hschema, hcheck⟩, hs⟩ := h
    obtain ⟨n, hencodes⟩ := (InterconnectReport.check_ok.mp hcheck).encodes
    have hprobe : probeType.unmarshal foldName (InterconnectReport.goType.encode r) =
        some (some r.schema) := probe_encode (by decide) r
    have hdecode := decode_of_encodes (by decide) hencodes (by rw [hprobe, hschema]) hs
    rw [parseInterconnectReport, hdecode]
    show (r.nilEmpty.validate >>= fun _ => Except.ok r.nilEmpty) = _
    rw [bind_ok, InterconnectReport.validate_ok, InterconnectReport.check_nilEmpty]
    exact ⟨⟨hschema, hcheck⟩, rfl⟩
  · intro d s h
    rw [InterconnectDesired.encode, bind_ok, InterconnectDesired.validate_ok] at h
    obtain ⟨⟨hschema, hcheck⟩, hs⟩ := h
    obtain ⟨n, hencodes⟩ := (InterconnectDesired.valid_of_check hcheck).encodes
    have hprobe : probeType.unmarshal foldName (InterconnectDesired.goType.encode d) =
        some (some d.schema) := probe_encode (by decide) d
    have hdecode := decode_of_encodes (by decide) hencodes (by rw [hprobe, hschema]) hs
    rw [parseInterconnectDesired, hdecode]
    show (d.nilEmpty.validate >>= fun _ => Except.ok d.nilEmpty) = _
    rw [bind_ok, InterconnectDesired.validate_ok, InterconnectDesired.check_nilEmpty]
    exact ⟨⟨hschema, hcheck⟩, rfl⟩

/-- A report with an empty slice that is not nil, and a UUID that is escaped. -/
def cabledReport : InterconnectReport where
  schema := 1
  localDomainUUIDs := some [lit "<a&b>"]
  peerDomainUUIDs := some []
  carrier := true
  reachablePeers := some [lit "mac-1", lit "mac-2.lan"]

def cabledText : GoString :=
  lit "\x7b\"schema\":1,\"localDomainUUIDs\":[\"\\u003ca\\u0026b\\u003e\"],\"carrier\":true," ++
    lit "\"reachablePeers\":[\"mac-1\",\"mac-2.lan\"]\x7d"

theorem interconnect_read_back_cabledReport :
    cabledReport.encode = .ok cabledText ∧
    parseInterconnectReport cabledText =
      .ok { cabledReport with peerDomainUUIDs := none } := by
  have h : cabledReport.encode = .ok cabledText := by
    decide +kernel
  exact ⟨h, interconnect_read_back.1 cabledReport _ h⟩

/-- The node that reads the payload decides as the server that wrote it. -/
theorem InterconnectDesired.decides_nilEmpty (d : InterconnectDesired) :
    d.nilEmpty.namespaceAllowed = d.namespaceAllowed ∧ d.nilEmpty.hasMLXModel = d.hasMLXModel := by
  unfold namespaceAllowed hasMLXModel nilEmpty
  simp only [appended_list, and_self]

end K3smApis.Interconnect
