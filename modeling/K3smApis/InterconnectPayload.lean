import K3smApis.AnnotationPayload
import K3smApis.DnsName
import K3smApis.LeafEncode

/-!
# The interconnect annotations

`net/v1alpha1/interconnectannotation.go`: the report a node writes and the payload the server
answers with, validated and encoded by the writer, decoded and validated by the reader. The
reader ignores unknown fields. Errors of encoding/json carry its own text, which is not
modelled.
-/
namespace K3smApis.Interconnect
open Check GoJson
open Budget (Slice int64 int32 bool string foldName)

def interconnectAnnotationSchema : Int64 := 1
def maxInterconnectReportBytes : ℕ := 4096
def maxInterconnectReportPeers : ℕ := 16
def maxInterconnectDomainUUIDBytes : ℕ := 64
def maxInterconnectUIDBytes : ℕ := 64
def maxInterconnectSlot : ℕ := 7
def maxInterconnectListItems : ℕ := 64

inductive InterconnectSentinel where
  | unknownInterconnectSchema | interconnectAnnotationInvalid
  deriving DecidableEq, Repr

structure InterconnectError where
  sentinel : InterconnectSentinel
  detail : Msg
  deriving DecidableEq, Repr

/-- A check whose errors wrap `ErrInvalidInterconnectAnnotation`. -/
def invalid (c : Check) : Except InterconnectError Unit :=
  c.mapError (fun detail => ⟨.interconnectAnnotationInvalid, detail⟩)

/-- A step of encoding/json. -/
def orInvalid {α : Type} : Option α → Except InterconnectError α
  | some a => .ok a
  | none => .error ⟨.interconnectAnnotationInvalid, []⟩

structure InterconnectReport where
  schema : Int64 := 0
  localDomainUUIDs : Slice GoString := none
  peerDomainUUIDs : Slice GoString := none
  carrier : Bool := false
  speedGbps : Int32 := 0
  reachablePeers : Slice GoString := none
  deriving DecidableEq, Repr

structure InterconnectModelRef where
  ns : GoString := []
  name : GoString := []
  uid : GoString := []
  deriving DecidableEq, Repr

structure InterconnectDesired where
  schema : Int64 := 0
  interconnect : GoString := []
  fallback : GoString := []
  allowedNamespaces : Slice GoString := none
  mlxModels : Slice InterconnectModelRef := none
  deriving DecidableEq, Repr

def fallbackNetwork : GoString := lit "network"
def fallbackNone : GoString := lit "none"

/-- `isNodeName`, by `dns1123SubdomainRE`. -/
def isNodeName (s : GoString) : Bool := s.length ≤ 253 ∧ DnsName.subdomain.rmatch s = true

/-- `isNamespaceName`, by `dns1123LabelRE`. -/
def isNamespaceName (s : GoString) : Bool := s.length ≤ 63 ∧ DnsName.label.rmatch s = true

def isPrintableASCII (u : GoString) (max : ℕ) : Bool :=
  ¬(u = [] ∨ max < u.length) ∧ u.all (fun b => ¬(b < 0x20 ∨ 0x7e < b))

def isDomainUUID (u : GoString) : Bool := isPrintableASCII u maxInterconnectDomainUUIDBytes

/-- The loop over the UUIDs of a field, from index `i`. -/
def checkUUIDs (field : String) : ℕ → List GoString → Check
  | _, [] => .ok ()
  | i, u :: us => do
    refuseIf (isDomainUUID u = false)
      [.s "report ", .s field, .s "[", .d i, .s "] is not 1..", .d maxInterconnectDomainUUIDBytes,
        .s " printable ASCII bytes"]
    checkUUIDs field (i + 1) us

/-- What `InterconnectReport.Validate` checks after the schema. -/
def InterconnectReport.check (r : InterconnectReport) : Check := do
  refuseIf (maxInterconnectReportPeers < r.reachablePeers.list.length)
    [.s "report lists ", .d r.reachablePeers.list.length, .s " reachable peers, at most ",
      .d maxInterconnectReportPeers]
  refuseIf (maxInterconnectReportPeers < r.peerDomainUUIDs.list.length)
    [.s "report lists ", .d r.peerDomainUUIDs.list.length, .s " peer domain UUIDs, at most ",
      .d maxInterconnectReportPeers]
  refuseIf (maxInterconnectSlot + 1 < r.localDomainUUIDs.list.length)
    [.s "report lists ", .d r.localDomainUUIDs.list.length, .s " local domain UUIDs, at most ",
      .d (maxInterconnectSlot + 1 : ℕ)]
  checkUUIDs "localDomainUUIDs" 0 r.localDomainUUIDs.list
  checkUUIDs "peerDomainUUIDs" 0 r.peerDomainUUIDs.list
  refuseIf (r.speedGbps < 0) [.s "report speedGbps ", .d r.speedGbps.toInt, .s " is negative"]
  forEachDistinct (fun i => [.s "report reachablePeers[", .d i, .s "] "])
    (fun p => refuseIf (isNodeName p = false) [.q p, .s " is not a node name"]) id
    (fun p => [.q p, .s " is repeated"]) (fun _ => .ok ()) 0 [] r.reachablePeers.list

/-- `InterconnectReport.Validate`. -/
def InterconnectReport.validate (r : InterconnectReport) : Except InterconnectError Unit := do
  refuseIf (r.schema ≠ interconnectAnnotationSchema)
    ⟨.unknownInterconnectSchema, [.s "report schema ", .d r.schema.toInt, .s ", want ",
      .d interconnectAnnotationSchema.toInt]⟩
  invalid r.check

/-- The loop over the models, with the names and the UIDs seen. -/
def checkModels : ℕ → List GoString → List GoString → List InterconnectModelRef → Check
  | _, _, _, [] => .ok ()
  | i, names, uids, m :: ms => do
    refuseIf (isNamespaceName m.ns = false)
      [.s "desired mlxModels[", .d i, .s "] namespace ", .q m.ns, .s " is not a namespace name"]
    refuseIf (isNodeName m.name = false)
      [.s "desired mlxModels[", .d i, .s "] name ", .q m.name, .s " is not an object name"]
    refuseIf (isPrintableASCII m.uid maxInterconnectUIDBytes = false)
      [.s "desired mlxModels[", .d i, .s "] uid is not 1..", .d maxInterconnectUIDBytes,
        .s " printable ASCII bytes"]
    let key := m.ns ++ lit "/" ++ m.name
    refuseIf (key ∈ names ∨ m.uid ∈ uids)
      [.s "desired mlxModels[", .d i, .s "] ", .str key, .s " (uid ", .q m.uid, .s ") is repeated"]
    checkModels (i + 1) (key :: names) (m.uid :: uids) ms

/-- What `InterconnectDesired.Validate` checks after the schema. -/
def InterconnectDesired.check (d : InterconnectDesired) : Check := do
  refuseIf (isNodeName d.interconnect = false)
    [.s "desired interconnect ", .q d.interconnect, .s " is not an object name"]
  refuseIf (¬(d.fallback = fallbackNetwork ∨ d.fallback = fallbackNone))
    [.s "desired fallback ", .q d.fallback, .s ", want ", .q fallbackNetwork, .s " or ",
      .q fallbackNone]
  refuseIf (maxInterconnectListItems < d.allowedNamespaces.list.length)
    [.s "desired allowedNamespaces has ", .d d.allowedNamespaces.list.length,
      .s " entries, at most ", .d maxInterconnectListItems]
  refuseIf (maxInterconnectListItems < d.mlxModels.list.length)
    [.s "desired mlxModels has ", .d d.mlxModels.list.length, .s " entries, at most ",
      .d maxInterconnectListItems]
  forEachDistinct (fun i => [.s "desired allowedNamespaces[", .d i, .s "] "])
    (fun n => refuseIf (isNamespaceName n = false) [.q n, .s " is not a namespace name"]) id
    (fun n => [.q n, .s " is repeated"]) (fun _ => .ok ()) 0 [] d.allowedNamespaces.list
  checkModels 0 [] [] d.mlxModels.list

/-- `InterconnectDesired.Validate`. -/
def InterconnectDesired.validate (d : InterconnectDesired) : Except InterconnectError Unit := do
  refuseIf (d.schema ≠ interconnectAnnotationSchema)
    ⟨.unknownInterconnectSchema, [.s "desired schema ", .d d.schema.toInt, .s ", want ",
      .d interconnectAnnotationSchema.toInt]⟩
  invalid d.check

/-- `InterconnectDesired.NamespaceAllowed`. -/
def InterconnectDesired.namespaceAllowed (d : InterconnectDesired) (ns : GoString) : Bool :=
  d.allowedNamespaces.list.length = 0 ∨ ns ∈ d.allowedNamespaces.list

/-- `InterconnectDesired.HasMLXModel`. -/
def InterconnectDesired.hasMLXModel (d : InterconnectDesired) (ns name uid : GoString) : Bool :=
  ¬(ns = [] ∨ name = [] ∨ uid = []) ∧ ⟨ns, name, uid⟩ ∈ d.mlxModels.list

def InterconnectReport.goType : GoType InterconnectReport :=
  .struct (
    .field (lit "schema") .never int64 <|
    .field (lit "localDomainUUIDs") .empty (.slice string) <|
    .field (lit "peerDomainUUIDs") .empty (.slice string) <|
    .field (lit "carrier") .never bool <|
    .field (lit "speedGbps") .empty int32 <|
    .field (lit "reachablePeers") .empty (.slice string) <|
    .nil)
    ⟨fun s => (s.schema, s.localDomainUUIDs, s.peerDomainUUIDs, s.carrier, s.speedGbps,
      s.reachablePeers, ()),
      fun (a, b, c, d, e, f, ()) => ⟨a, b, c, d, e, f⟩,
      fun _ => rfl, fun _ => rfl⟩

def InterconnectModelRef.goType : GoType InterconnectModelRef :=
  .struct (
    .field (lit "namespace") .never string <|
    .field (lit "name") .never string <|
    .field (lit "uid") .never string <|
    .nil)
    ⟨fun s => (s.ns, s.name, s.uid, ()), fun (a, b, c, ()) => ⟨a, b, c⟩,
      fun _ => rfl, fun _ => rfl⟩

def InterconnectDesired.goType : GoType InterconnectDesired :=
  .struct (
    .field (lit "schema") .never int64 <|
    .field (lit "interconnect") .never string <|
    .field (lit "fallback") .never string <|
    .field (lit "allowedNamespaces") .empty (.slice string) <|
    .field (lit "mlxModels") .empty (.slice InterconnectModelRef.goType) <|
    .nil)
    ⟨fun s => (s.schema, s.interconnect, s.fallback, s.allowedNamespaces, s.mlxModels, ()),
      fun (a, b, c, d, e, ()) => ⟨a, b, c, d, e⟩,
      fun _ => rfl, fun _ => rfl⟩

/-- The struct that only has a schema. -/
def probeType : GoType (Option Int64) :=
  .struct (.field (lit "schema") .never (.ptr int64) .nil)
    ⟨fun s => (s, ()), fun (a, ()) => a, fun _ => rfl, fun _ => rfl⟩

def encodeInterconnectAnnotation {α : Type} (t : GoType α) (x : α) :
    Except InterconnectError GoString := do
  let b := (t.encode x).print
  refuseIf (maxInterconnectReportBytes < b.length)
    ⟨.interconnectAnnotationInvalid,
      [.s "payload is ", .d b.length, .s " bytes, at most ",
      .d maxInterconnectReportBytes]⟩
  .ok b

def decodeInterconnectAnnotation {α : Type} (t : GoType α) (value : GoString) :
    Except InterconnectError α := do
  refuseIf (maxInterconnectReportBytes < value.length)
    ⟨.interconnectAnnotationInvalid,
      [.s "payload is ", .d value.length, .s " bytes, at most ",
      .d maxInterconnectReportBytes]⟩
  let probe ← orInvalid ((Json.parse value).bind (probeType.unmarshal foldName))
  match probe with
  | none => .error ⟨.unknownInterconnectSchema, [.s "payload has no schema"]⟩
  | some schema =>
    refuseIf (schema ≠ interconnectAnnotationSchema)
      ⟨.unknownInterconnectSchema, [.s "schema ", .d schema.toInt, .s ", want ",
        .d interconnectAnnotationSchema.toInt]⟩
    orInvalid ((Json.parse value).bind (t.unmarshal foldName))

/-- `InterconnectReport.Encode`. -/
def InterconnectReport.encode (r : InterconnectReport) : Except InterconnectError GoString := do
  r.validate
  encodeInterconnectAnnotation InterconnectReport.goType r

/-- `ParseInterconnectReport`. -/
def parseInterconnectReport (value : GoString) : Except InterconnectError InterconnectReport := do
  let r ← decodeInterconnectAnnotation InterconnectReport.goType value
  r.validate
  .ok r

/-- `InterconnectDesired.Encode`. -/
def InterconnectDesired.encode (d : InterconnectDesired) : Except InterconnectError GoString := do
  d.validate
  encodeInterconnectAnnotation InterconnectDesired.goType d

/-- `ParseInterconnectDesired`. -/
def parseInterconnectDesired (value : GoString) : Except InterconnectError InterconnectDesired := do
  let d ← decodeInterconnectAnnotation InterconnectDesired.goType value
  d.validate
  .ok d

end K3smApis.Interconnect
