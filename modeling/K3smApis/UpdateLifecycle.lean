import K3smApis.AnnotationPayload
import K3smApis.BudgetSchema
import K3smApis.DnsName
import K3smApis.LeafEncode
import K3smApis.StoredResource

/-!
# The life of an Update

The Update resource under an API server: the spec of `updates/v1alpha1/update.go`, the schema
and defaults of `updates.k3sm.io_updates.yaml`, and its two transition rules, which keep the
version and make cancel one-way. Both rules compare values that are there in the old and the
new object; the defaults and the required version are what makes them apply to every update.
-/
namespace K3smApis.Updates
open Budget GoJson Schema

inductive UpdateOrder where
  | workersThenServer
  deriving DecidableEq, Repr

instance : Vocabulary UpdateOrder where
  words := [.workersThenServer]
  spell
    | .workersThenServer => "workers-then-server"
  complete v := by cases v; decide
  distinct := by decide
  nonempty v := by cases v; decide

inductive UpdateSignaturePolicy where
  | ifSigned | required
  deriving DecidableEq, Repr

instance : Vocabulary UpdateSignaturePolicy where
  words := [.ifSigned, .required]
  spell
    | .ifSigned => "if-signed"
    | .required => "required"
  complete v := by cases v <;> decide
  distinct := by decide
  nonempty v := by cases v <;> decide

structure UpdateStrategy where
  order : Wire UpdateOrder
  maxUnavailable : Int32
  drain : Bool
  deriving DecidableEq, Repr

structure UpdateVerify where
  signature : Wire UpdateSignaturePolicy
  deriving DecidableEq, Repr

structure UpdateSpec where
  version : GoString
  strategy : UpdateStrategy
  verify : UpdateVerify
  allowDowngrade : Bool
  cancel : Bool
  deriving DecidableEq, Repr

def UpdateStrategy.fields : Fields (Wire UpdateOrder × Int32 × Bool × Unit) :=
  .field (lit "order") .empty enum <|
    .field (lit "maxUnavailable") .empty int32 <|
    .field (lit "drain") .empty bool .nil

def UpdateStrategy.goType : GoType UpdateStrategy :=
  .struct UpdateStrategy.fields
    ⟨fun s => (s.order, s.maxUnavailable, s.drain, ()), fun x => ⟨x.1, x.2.1, x.2.2.1⟩,
      fun _ => rfl, fun _ => rfl⟩

def UpdateVerify.fields : Fields (Wire UpdateSignaturePolicy × Unit) :=
  .field (lit "signature") .empty enum .nil

def UpdateVerify.goType : GoType UpdateVerify :=
  .struct UpdateVerify.fields
    ⟨fun s => (s.signature, ()), fun x => ⟨x.1⟩, fun _ => rfl, fun _ => rfl⟩

def UpdateSpec.fields : Fields (GoString × UpdateStrategy × UpdateVerify × Bool × Bool × Unit) :=
  .field (lit "version") .never string <|
    .field (lit "strategy") .empty UpdateStrategy.goType <|
    .field (lit "verify") .empty UpdateVerify.goType <|
    .field (lit "allowDowngrade") .empty bool <|
    .field (lit "cancel") .empty bool .nil

def UpdateSpec.goType : GoType UpdateSpec :=
  .struct UpdateSpec.fields
    ⟨fun s => (s.version, s.strategy, s.verify, s.allowDowngrade, s.cancel, ()),
      fun x => ⟨x.1, x.2.1, x.2.2.1, x.2.2.2.1, x.2.2.2.2.1⟩, fun _ => rfl, fun _ => rfl⟩

/-- The part of `Update` a client writes. -/
def updateType : GoType UpdateSpec :=
  .struct (.field (lit "spec") .never UpdateSpec.goType .nil)
    ⟨fun s => (s, ()), fun x => x.1, fun _ => rfl, fun _ => rfl⟩

def digits : RegularExpression UInt8 :=
  DnsName.oneOf (lit "0123456789") * (DnsName.oneOf (lit "0123456789")).star

/-- The bytes of a pre-release suffix. -/
def suffixBytes : GoString :=
  lit "0123456789ABCDEFGHIJKLMNOPQRSTUVWXYZabcdefghijklmnopqrstuvwxyz.-"

/-- `^v[0-9]+\.[0-9]+\.[0-9]+(-[0-9A-Za-z.-]+)?$`. -/
def versionPattern : RegularExpression UInt8 :=
  DnsName.oneOf (lit "v") * digits * DnsName.oneOf (lit ".") * digits *
    DnsName.oneOf (lit ".") * digits *
    (1 + DnsName.oneOf (lit "-") * DnsName.oneOf suffixBytes * (DnsName.oneOf suffixBytes).star)

/-- The pattern leaves nothing to `minLength: 1`. -/
def versionRules : StringRules := { maxLength := some 128, pattern := some versionPattern }

def strategySchema : Schema :=
  .object [] (
    .property "order" (enumOf ["workers-then-server"]) <|
    .property "maxUnavailable" (.integer (some 1) none) <|
    .property "drain" .boolean <|
    .nil)
    []

def verifySchema : Schema :=
  .object [] (.property "signature" (enumOf ["if-signed", "required"]) .nil) []

def specSchema : Schema :=
  .object ["version"] (
    .property "version" (.string versionRules) <|
    .property "strategy" strategySchema <|
    .property "verify" verifySchema <|
    .property "allowDowngrade" .boolean <|
    .property "cancel" .boolean <|
    .nil)
    []

def strategyFill : Fill :=
  .object (
    .property "order" (some (.str (lit "workers-then-server"))) .scalar <|
    .property "maxUnavailable" (some (.num (lit "1"))) .scalar <|
    .property "drain" (some (.bool false)) .scalar <|
    .nil)

def verifyFill : Fill :=
  .object (.property "signature" (some (.str (lit "if-signed"))) .scalar .nil)

def specFill : Fill :=
  .object (
    .property "version" none .scalar <|
    .property "strategy" (some (.obj [])) strategyFill <|
    .property "verify" (some (.obj [])) verifyFill <|
    .property "allowDowngrade" (some (.bool false)) .scalar <|
    .property "cancel" (some (.bool false)) .scalar <|
    .nil)

/-- `self == oldSelf` on spec.version. -/
def versionRule : Transition := ⟨["spec", "version"], .eq (.field ["self"]) (.field ["oldSelf"])⟩

/-- `!oldSelf || self` on spec.cancel. -/
def cancelRule : Transition :=
  ⟨["spec", "cancel"], .or (.not (.field ["oldSelf"])) (.field ["self"])⟩

/-- The resource, with any schema for its status. -/
def updates (statusAccepts : Json → Bool) : Resource where
  fill := .object (.property "spec" none specFill .nil)
  schema := .object ["spec"] (.property "spec" specSchema .nil) []
  transitions := [versionRule, cancelRule]
  statusAccepts

/-- An Update as the server stores it. Its number of nodes may be too large for the Go type. -/
structure StoredUpdate where
  version : GoString
  order : Wire UpdateOrder
  maxUnavailable : ℤ
  drain : Bool
  signature : Wire UpdateSignaturePolicy
  allowDowngrade : Bool
  cancel : Bool

def UpdateSpec.stored (s : UpdateSpec) : StoredUpdate :=
  ⟨s.version, s.strategy.order, s.strategy.maxUnavailable.toInt, s.strategy.drain,
    s.verify.signature, s.allowDowngrade, s.cancel⟩

/-- What a client in Go reads: nothing, where an int32 does not hold the number. -/
def StoredUpdate.read (u : StoredUpdate) : Option UpdateSpec :=
  if -2 ^ 31 ≤ u.maxUnavailable ∧ u.maxUnavailable < 2 ^ 31 then
    some ⟨u.version, ⟨u.order, .ofInt u.maxUnavailable, u.drain⟩, ⟨u.signature⟩, u.allowDowngrade,
      u.cancel⟩
  else none

theorem read_stored (s : UpdateSpec) : s.stored.read = some s := by
  have hfits : -2 ^ 31 ≤ s.stored.maxUnavailable ∧ s.stored.maxUnavailable < 2 ^ 31 :=
    ⟨Int32.le_toInt _, Int32.toInt_lt _⟩
  rw [StoredUpdate.read, if_pos hfits]
  simp [UpdateSpec.stored]

theorem stored_of_read {u : StoredUpdate} {s : UpdateSpec} (h : u.read = some s) :
    s.stored = u := by
  rw [StoredUpdate.read] at h
  split_ifs at h with hfits
  obtain rfl := Option.some.inj h
  rw [UpdateSpec.stored, Int32.toInt_ofInt_of_le hfits.1 hfits.2]

/-- The members of the strategy, the number of nodes written as `t`. -/
def StoredUpdate.strategy (u : StoredUpdate) (t : GoString) : Json :=
  .obj [(lit "order", .str u.order.text), (lit "maxUnavailable", .num t),
    (lit "drain", .bool u.drain)]

def StoredUpdate.verify (u : StoredUpdate) : Json :=
  .obj [(lit "signature", .str u.signature.text)]

def StoredUpdate.spec (u : StoredUpdate) (t : GoString) : Json :=
  .obj [(lit "version", .str u.version), (lit "strategy", u.strategy t),
    (lit "verify", u.verify), (lit "allowDowngrade", .bool u.allowDowngrade),
    (lit "cancel", .bool u.cancel)]

def storedAs (u : StoredUpdate) (t : GoString) : Json := .obj [(lit "spec", u.spec t)]

/-- A complete request: what the controller may rely on. -/
structure StoredUpdate.Complete (u : StoredUpdate) : Prop where
  version : versionRules.accepts u.version = true
  order : u.order = word .workersThenServer
  maxUnavailable : 1 ≤ u.maxUnavailable
  signature : Known u.signature

/-- The stored object `v` is the Update `u`. -/
structure Holds (v : Json) (u : StoredUpdate) : Prop where
  complete : u.Complete
  stored : ∃ t, v = storedAs u t ∧ Decimal.signed t = some u.maxUnavailable

/-- A stored object is one Update only. -/
theorem Holds.unique {v : Json} {u u' : StoredUpdate} (h : Holds v u) (h' : Holds v u') :
    u = u' := by
  obtain ⟨t, rfl, ht⟩ := h.stored
  obtain ⟨t', heq, ht'⟩ := h'.stored
  simp only [storedAs, StoredUpdate.spec, StoredUpdate.strategy, StoredUpdate.verify,
    Json.obj.injEq, List.cons.injEq, Prod.mk.injEq, Json.str.injEq, Json.num.injEq,
    Json.bool.injEq, true_and, and_true] at heq
  obtain ⟨hversion, ⟨horder, rfl, hdrain⟩, hsignature, hallow, hcancel⟩ := heq
  have hmax : u.maxUnavailable = u'.maxUnavailable := Option.some.inj (ht.symm.trans ht')
  obtain ⟨version, ⟨order⟩, n, drain, ⟨signature⟩, allow, cancel⟩ := u
  obtain ⟨version', ⟨order'⟩, n', drain', ⟨signature'⟩, allow', cancel'⟩ := u'
  simp_all

theorem lists_orders : Lists UpdateOrder ["workers-then-server"] := ⟨by decide, rfl⟩

theorem lists_signatures : Lists UpdateSignaturePolicy ["if-signed", "required"] :=
  ⟨by decide, rfl⟩

theorem strategy_of_accepts {v : Json}
    (h : strategySchema.accepts (strategyFill.apply v) = true) :
    ∃ (order : Wire UpdateOrder) (n : ℤ) (drain : Bool) (t : GoString),
      strategyFill.apply v = .obj [(lit "order", .str order.text), (lit "maxUnavailable", .num t),
        (lit "drain", .bool drain)] ∧
      Decimal.signed t = some n ∧ order = word .workersThenServer ∧ 1 ≤ n := by
  obtain ⟨ms, rfl, -, hmembers⟩ := Fill.of_accepts_object h
  rw [strategyFill, Fill.apply]
  simp only [Fill.apply_default, Fill.apply_nil, Fill.apply_scalar, List.forall_mem_cons,
    Properties.find?, lit_inj, String.reduceEq, reduceIte, Option.mem_some_iff, forall_eq']
    at hmembers ⊢
  obtain ⟨horder, hmax, hdrain, -⟩ := hmembers
  obtain ⟨order, hstr, horder⟩ := of_accepts_string horder
  obtain ⟨t, n, hnum, hparse, hmin, -⟩ := of_accepts_integer hmax
  obtain ⟨drain, hbool⟩ := of_accepts_boolean hdrain
  have hknown : Known (⟨order⟩ : Wire UpdateOrder) := lists_orders.accepts.mp horder
  refine ⟨⟨order⟩, n, drain, t, ?_, hparse, ?_, hmin 1 rfl⟩
  · rw [hstr, hnum, hbool]
  · obtain ⟨v, hword⟩ := hknown
    cases v
    exact hword

theorem verify_of_accepts {v : Json} (h : verifySchema.accepts (verifyFill.apply v) = true) :
    ∃ signature : Wire UpdateSignaturePolicy,
      verifyFill.apply v = .obj [(lit "signature", .str signature.text)] ∧ Known signature := by
  obtain ⟨ms, rfl, -, hmembers⟩ := Fill.of_accepts_object h
  rw [verifyFill, Fill.apply]
  simp only [Fill.apply_default, Fill.apply_nil, Fill.apply_scalar, List.forall_mem_cons,
    Properties.find?, reduceIte, Option.mem_some_iff, forall_eq'] at hmembers ⊢
  obtain ⟨signature, hstr, haccepts⟩ := of_accepts_string hmembers.1
  refine ⟨⟨signature⟩, ?_, lists_signatures.accepts.mp haccepts⟩
  rw [hstr]

theorem spec_of_accepts {v : Json} (h : specSchema.accepts (specFill.apply v) = true) :
    ∃ (u : StoredUpdate) (t : GoString), specFill.apply v = u.spec t ∧ u.Complete ∧
      Decimal.signed t = some u.maxUnavailable := by
  obtain ⟨ms, rfl, hrequired, hmembers⟩ := Fill.of_accepts_object h
  rw [specFill, Fill.apply]
  cases hgiven : given? ms "version" with
  | none =>
    have hversion := hrequired "version" (by decide)
    simp only [Fill.apply_default, Fill.apply_nil, Fill.apply_given, hgiven, Option.map_none,
      Option.toList_none, List.nil_append, member?, List.find?_cons, List.find?_nil, lit_inj,
      String.reduceEq, decide_false, Option.isSome_none, Bool.false_eq_true] at hversion
  | some version =>
    simp only [Fill.apply_default, Fill.apply_nil, Fill.apply_given, Fill.apply_scalar, hgiven,
      Option.map_some, Option.toList_some, List.cons_append, List.nil_append,
      List.forall_mem_cons, Properties.find?, lit_inj, String.reduceEq, reduceIte,
      Option.mem_some_iff, forall_eq'] at hmembers ⊢
    obtain ⟨hversion, hstrategy, hverify, hallow, hcancel, -⟩ := hmembers
    obtain ⟨text, hstr, hversion⟩ := of_accepts_string hversion
    obtain ⟨order, n, drain, t, hstrategy, hparse, horder, hmax⟩ := strategy_of_accepts hstrategy
    obtain ⟨signature, hverify, hsignature⟩ := verify_of_accepts hverify
    obtain ⟨allow, hallow⟩ := of_accepts_boolean hallow
    obtain ⟨cancel, hcancel⟩ := of_accepts_boolean hcancel
    refine ⟨⟨text, order, n, drain, signature, allow, cancel⟩, t, ?_,
      ⟨hversion, horder, hmax, hsignature⟩, hparse⟩
    rw [hstr, hstrategy, hverify, hallow, hcancel]
    rfl

/-- Every object the server admits is a complete Update, with nothing left out. -/
theorem admitted_holds {statusAccepts : Json → Bool} {old : Option Json} {body v : Json}
    (h : (updates statusAccepts).admitted old body = some v) : ∃ u, Holds v u := by
  obtain ⟨rfl, haccepts, -⟩ := Resource.admitted_eq_some.mp h
  change (Schema.object ["spec"] (.property "spec" specSchema .nil) []).accepts
    ((Fill.object (.property "spec" none specFill .nil)).apply body) = true at haccepts
  obtain ⟨ms, rfl, hrequired, hmembers⟩ := Fill.of_accepts_object haccepts
  change ∃ u, Holds ((Fill.object (.property "spec" none specFill .nil)).apply (.obj ms)) u
  rw [Fill.apply]
  cases hgiven : given? ms "spec" with
  | none =>
    have hspec := hrequired "spec" (by decide)
    simp only [Fill.apply_nil, Fill.apply_given, hgiven, Option.map_none, Option.toList_none,
      List.nil_append, member?, List.find?_nil, Option.isSome_none, Bool.false_eq_true] at hspec
  | some spec =>
    simp only [Fill.apply_nil, Fill.apply_given, hgiven, Option.map_some, Option.toList_some,
      List.append_nil, List.forall_mem_cons, Properties.find?, reduceIte, Option.mem_some_iff,
      forall_eq'] at hmembers ⊢
    obtain ⟨u, t, hobject, hcomplete, hparse⟩ := spec_of_accepts hmembers.1
    refine ⟨u, hcomplete, t, ?_, hparse⟩
    rw [hobject]
    rfl

theorem storedAs_keysDistinct (u : StoredUpdate) (t : GoString) :
    (storedAs u t).KeysDistinct := by
  have hstrategy : (u.strategy t).KeysDistinct := by
    refine .obj (by simp [lit_inj]) ?_
    simp only [List.forall_mem_cons, List.not_mem_nil, false_imp_iff, implies_true, and_true]
    exact ⟨.str _, .num _, .bool _⟩
  have hverify : u.verify.KeysDistinct := by
    refine .obj (by simp) ?_
    simpa only [List.forall_mem_singleton] using .str _
  have hspec : (u.spec t).KeysDistinct := by
    refine .obj (by simp [lit_inj]) ?_
    simp only [List.forall_mem_cons, List.not_mem_nil, false_imp_iff, implies_true, and_true]
    exact ⟨.str _, hstrategy, hverify, .bool _, .bool _⟩
  refine .obj (by simp) ?_
  simpa only [List.forall_mem_singleton] using hspec

theorem storedAs_exactKeys (u : StoredUpdate) (t : GoString) :
    updateType.ExactKeys (storedAs u t) := by
  simp only [updateType, storedAs, UpdateSpec.goType, UpdateSpec.fields, StoredUpdate.spec,
    UpdateStrategy.goType, UpdateStrategy.fields, StoredUpdate.strategy, UpdateVerify.goType,
    UpdateVerify.fields, StoredUpdate.verify, Budget.string, int32, signedInt, enum, text,
    Budget.bool, GoType.ExactKeys, Fields.ExactMember,
    List.forall_mem_cons, List.not_mem_nil, false_imp_iff, implies_true, lit_inj,
    String.reduceEq, reduceIte, and_true]

theorem refDecode_strategy {u : StoredUpdate} {t : GoString} :
    UpdateStrategy.goType.refDecode (u.strategy t) =
      (int32.refDecode (.num t)).map fun n => ⟨u.order, n, u.drain⟩ := by
  rw [UpdateStrategy.goType, UpdateStrategy.fields, StoredUpdate.strategy, GoType.refDecode]
  simp only [Fields.refDecode, member?, List.find?_cons, lit_inj, String.reduceEq, decide_true,
    decide_false, Option.map_some, Option.getD_some]
  cases int32.refDecode (.num t) <;> rfl

theorem refDecode_spec {u : StoredUpdate} {t : GoString} :
    UpdateSpec.goType.refDecode (u.spec t) =
      (int32.refDecode (.num t)).map fun n =>
        ⟨u.version, ⟨u.order, n, u.drain⟩, ⟨u.signature⟩, u.allowDowngrade, u.cancel⟩ := by
  rw [UpdateSpec.goType, UpdateSpec.fields, StoredUpdate.spec, GoType.refDecode]
  simp only [Fields.refDecode, member?, List.find?_cons, lit_inj, String.reduceEq, decide_true,
    decide_false, Option.map_some, Option.getD_some, refDecode_strategy]
  cases int32.refDecode (.num t) <;> rfl

/-- What a client in Go reads of the stored object. -/
theorem Holds.reads {v : Json} {u : StoredUpdate} (h : Holds v u) :
    updateType.unmarshal foldName v = u.read := by
  obtain ⟨t, rfl, hparse⟩ := h.stored
  have hnames : updateType.NamesDistinct := by decide
  have hmax : (int32.refDecode (.num t)).map (fun n =>
      (⟨u.version, ⟨u.order, n, u.drain⟩, ⟨u.signature⟩, u.allowDowngrade, u.cancel⟩ :
        UpdateSpec)) = u.read := by
    change ((Decimal.parseInt 32 t).map Int32.ofInt).map _ = _
    rw [Decimal.parseInt, hparse, StoredUpdate.read, Option.filter_some]
    simp only [decide_eq_true_iff]
    split_ifs <;> rfl
  rw [GoType.unmarshal, GoType.known_of_exactKeys _ (storedAs_exactKeys u t),
    GoType.decode_eq_refDecode _ hnames (storedAs_keysDistinct u t) (storedAs_exactKeys u t),
    updateType, storedAs, GoType.refDecode]
  simp only [Fields.refDecode, member?, List.find?_cons, decide_true, Option.map_some,
    Option.getD_some, refDecode_spec, hmax]
  cases u.read <;> rfl

theorem StoredUpdate.Complete.version_ascii {u : StoredUpdate} (h : u.Complete) :
    ∀ b ∈ u.version, b < 0x80 := by
  have hletters : (letters versionPattern).all (· < 0x80) = true := by decide +kernel
  have haccepts := h.version
  simp only [versionRules, StringRules.accepts, Option.all_some, Option.all_none, Bool.true_and,
    Bool.not_false, Bool.true_or, Bool.and_true, Bool.and_eq_true,
    RegularExpression.rmatch_iff_matches'] at haccepts
  exact fun b hb => of_decide_eq_true
    (List.all_eq_true.mp hletters b (letters_of_match _ haccepts.2 b hb))

theorem versionRule_allows {u u' : StoredUpdate} {t t' : GoString} (h : u.Complete) :
    versionRule.allows (storedAs u t) (storedAs u' t') = true ↔ u'.version = u.version := by
  have hold : Cel.at? ["spec", "version"] (storedAs u t) = some (.str u.version) := rfl
  have hnew : Cel.at? ["spec", "version"] (storedAs u' t') = some (.str u'.version) := rfl
  rw [versionRule, Transition.allows, hold, hnew, Option.all_some, Option.all_some,
    Cel.holds_eq (x := .str (Utf8.runes u'.version)) (y := .str (Utf8.runes u.version)) rfl rfl,
    Cel.Scalar.str.injEq, Utf8.runes_eq_ascii h.version_ascii]

theorem cancelRule_allows {u u' : StoredUpdate} {t t' : GoString} :
    cancelRule.allows (storedAs u t) (storedAs u' t') = true ↔
      (u.cancel = true → u'.cancel = true) := by
  have hold : Cel.at? ["spec", "cancel"] (storedAs u t) = some (.bool u.cancel) := rfl
  have hnew : Cel.at? ["spec", "cancel"] (storedAs u' t') = some (.bool u'.cancel) := rfl
  rw [cancelRule, Transition.allows, hold, hnew]
  cases u.cancel <;> cases u'.cancel <;> decide

/-- A replacement keeps the version and does not take back a cancel. -/
structure StoredUpdate.Follows (u u' : StoredUpdate) : Prop where
  version : u'.version = u.version
  cancel : u.cancel = true → u'.cancel = true

theorem allows_iff {statusAccepts : Json → Bool} {o v : Json} {u u' : StoredUpdate}
    (ho : Holds o u) (hv : Holds v u') :
    (∀ t ∈ (updates statusAccepts).transitions, t.allows o v = true) ↔ u.Follows u' := by
  obtain ⟨t, rfl, -⟩ := ho.stored
  obtain ⟨t', rfl, -⟩ := hv.stored
  change (∀ t ∈ [versionRule, cancelRule], _) ↔ _
  rw [List.forall_mem_cons, List.forall_mem_singleton, versionRule_allows ho.complete,
    cancelRule_allows]
  exact ⟨fun h => ⟨h.1, h.2⟩, fun h => ⟨h.version, h.cancel⟩⟩

section Runs

variable (statusAccepts : Json → Bool)

/-- The store after a run of requests on an empty one. -/
def storeAfter (qs : List Request) : Store := (updates statusAccepts).run (fun _ => none) qs

/-- What a client reads under a name. -/
def specAt (st : Store) (name : GoString) : Option UpdateSpec :=
  (objectAt st name).bind (updateType.unmarshal foldName)

theorem stored_holds (qs : List Request) {name : GoString} {o : Json}
    (ho : objectAt (storeAfter statusAccepts qs) name = some o) : ∃ u, Holds o u :=
  Resource.run_invariant (P := fun o => ∃ u, Holds o u) (fun _ _ _ => admitted_holds)
    (fun _ _ h => absurd h (by simp [objectAt])) qs name o ho

/-- A request that names a release and nothing else. -/
def plainRequest : Json := .obj [(lit "spec", .obj [(lit "version", .str (lit "v0.2.0"))])]

/-- The spec the server makes of it. -/
def plainSpec : UpdateSpec :=
  ⟨lit "v0.2.0", ⟨word .workersThenServer, 1, false⟩, ⟨word .ifSigned⟩, false, false⟩

end Runs

-- a client in Go leaves a field that holds its zero value out of what it writes, so it is the
-- server that fills it in

def UpdateStrategy.withDefaults (s : UpdateStrategy) : UpdateStrategy where
  order := if s.order.text = [] then word .workersThenServer else s.order
  maxUnavailable := if s.maxUnavailable = 0 then 1 else s.maxUnavailable
  drain := s.drain

def UpdateVerify.withDefaults (s : UpdateVerify) : UpdateVerify where
  signature := if s.signature.text = [] then word .ifSigned else s.signature

/-- The spec the server makes of one a client writes. -/
def UpdateSpec.withDefaults (s : UpdateSpec) : UpdateSpec :=
  { s with strategy := s.strategy.withDefaults, verify := s.verify.withDefaults }

theorem withDefaults_eq {s : UpdateSpec} (h : s.stored.Complete) : s.withDefaults = s := by
  have horder : s.strategy.order.text ≠ [] := by
    rw [show s.strategy.order = _ from h.order]
    decide
  have hmax : s.strategy.maxUnavailable ≠ 0 := by
    intro hzero
    have hone : 1 ≤ s.strategy.maxUnavailable.toInt := h.maxUnavailable
    rw [hzero] at hone
    exact absurd hone (by decide)
  have hsignature : s.verify.signature.text ≠ [] := by
    obtain ⟨v, hv⟩ := h.signature
    rw [show s.verify.signature = _ from hv]
    cases v <;> decide
  rw [UpdateSpec.withDefaults, UpdateStrategy.withDefaults, UpdateVerify.withDefaults,
    if_neg horder, if_neg hmax, if_neg hsignature]

section Filled

variable {R : Type} {fs : Fields R} {x : R} {name : String}

/-- A word that is empty is left out, and filled in. -/
theorem filled_enum {V : Type} [Vocabulary V] (hnames : fs.names.Nodup) {w : Wire V} (d : V)
    (hvalue : fieldValue (lit name) fs x =
      if Omit.empty.omits enum w then none else some (enum.encode w)) :
    (given? (fs.encode x) name).getD (.str (lit (Vocabulary.spell d))) =
      .str (if w.text = [] then word d else w).text := by
  rw [given?_encode hnames, hvalue]
  change ((if decide (w.text = []) then none else some (Json.str w.text)).bind _).getD _ = _
  simp only [decide_eq_true_iff]
  split_ifs <;> rfl

theorem filled_int32 (hnames : fs.names.Nodup) {n : Int32} (d : Int32)
    (hvalue : fieldValue (lit name) fs x =
      if Omit.empty.omits int32 n then none else some (int32.encode n)) :
    (given? (fs.encode x) name).getD (.num (Decimal.ofInt d.toInt)) =
      .num (Decimal.ofInt (if n = 0 then d else n).toInt) := by
  rw [given?_encode hnames, hvalue]
  change ((if decide (n = 0) then none
    else some (Json.num (Decimal.ofInt n.toInt))).bind _).getD _ = _
  simp only [decide_eq_true_iff]
  split_ifs <;> rfl

theorem filled_bool (hnames : fs.names.Nodup) {b : Bool}
    (hvalue : fieldValue (lit name) fs x =
      if Omit.empty.omits Budget.bool b then none else some (Budget.bool.encode b)) :
    (given? (fs.encode x) name).getD (.bool false) = .bool b := by
  rw [given?_encode hnames, hvalue]
  cases b <;> rfl

end Filled

theorem strategyFill_encode (s : UpdateStrategy) :
    strategyFill.apply (UpdateStrategy.goType.encode s) =
      .obj [(lit "order", .str s.withDefaults.order.text),
        (lit "maxUnavailable", .num (Decimal.ofInt s.withDefaults.maxUnavailable.toInt)),
        (lit "drain", .bool s.withDefaults.drain)] := by
  have hnames : UpdateStrategy.fields.names.Nodup := by decide
  obtain ⟨ms, hms⟩ : ∃ ms, UpdateStrategy.fields.encode
      (s.order, s.maxUnavailable, s.drain, ()) = ms := ⟨_, rfl⟩
  have horder : (given? ms "order").getD (.str (lit "workers-then-server")) =
      .str s.withDefaults.order.text := by
    rw [← hms]
    exact filled_enum hnames UpdateOrder.workersThenServer rfl
  have hmax : (given? ms "maxUnavailable").getD (.num (lit "1")) =
      .num (Decimal.ofInt s.withDefaults.maxUnavailable.toInt) := by
    rw [← hms]
    exact filled_int32 hnames 1 rfl
  have hdrain : (given? ms "drain").getD (.bool false) = .bool s.withDefaults.drain := by
    rw [← hms]
    exact filled_bool hnames rfl
  change strategyFill.apply
    (.obj (UpdateStrategy.fields.encode (s.order, s.maxUnavailable, s.drain, ()))) = _
  rw [hms, strategyFill, Fill.apply]
  simp only [Fill.apply_default, Fill.apply_nil, Fill.apply_scalar, horder, hmax, hdrain]

theorem verifyFill_encode (s : UpdateVerify) :
    verifyFill.apply (UpdateVerify.goType.encode s) =
      .obj [(lit "signature", .str s.withDefaults.signature.text)] := by
  have hnames : UpdateVerify.fields.names.Nodup := by decide
  have hsignature : (given? (UpdateVerify.fields.encode (s.signature, ())) "signature").getD
      (.str (lit "if-signed")) = .str s.withDefaults.signature.text :=
    filled_enum hnames UpdateSignaturePolicy.ifSigned rfl
  change verifyFill.apply (.obj (UpdateVerify.fields.encode (s.signature, ()))) = _
  rw [verifyFill, Fill.apply]
  simp only [Fill.apply_default, Fill.apply_nil, Fill.apply_scalar, hsignature]

theorem specFill_encode (s : UpdateSpec) :
    specFill.apply (UpdateSpec.goType.encode s) =
      s.withDefaults.stored.spec (Decimal.ofInt s.withDefaults.stored.maxUnavailable) := by
  have hnames : UpdateSpec.fields.names.Nodup := by decide
  obtain ⟨ms, hms⟩ : ∃ ms, UpdateSpec.fields.encode
      (s.version, s.strategy, s.verify, s.allowDowngrade, s.cancel, ()) = ms := ⟨_, rfl⟩
  have hversion : given? ms "version" = some (.str s.version) := by
    rw [← hms, given?_encode hnames]
    rfl
  have hstrategy : given? ms "strategy" = some (UpdateStrategy.goType.encode s.strategy) := by
    rw [← hms, given?_encode hnames]
    rfl
  have hverify : given? ms "verify" = some (UpdateVerify.goType.encode s.verify) := by
    rw [← hms, given?_encode hnames]
    rfl
  have hallow : (given? ms "allowDowngrade").getD (.bool false) = .bool s.allowDowngrade := by
    rw [← hms]
    exact filled_bool hnames rfl
  have hcancel : (given? ms "cancel").getD (.bool false) = .bool s.cancel := by
    rw [← hms]
    exact filled_bool hnames rfl
  change specFill.apply (.obj (UpdateSpec.fields.encode
    (s.version, s.strategy, s.verify, s.allowDowngrade, s.cancel, ()))) = _
  rw [hms, specFill, Fill.apply]
  simp only [Fill.apply_default, Fill.apply_given, Fill.apply_nil, Fill.apply_scalar, hversion,
    hstrategy, hverify, hallow, hcancel, Option.getD_some, strategyFill_encode,
    verifyFill_encode]
  rfl

/-- The object stored for a spec that a client writes. -/
def UpdateSpec.written (s : UpdateSpec) : Json :=
  storedAs s.withDefaults.stored (Decimal.ofInt s.withDefaults.stored.maxUnavailable)

theorem fill_encode (statusAccepts : Json → Bool) (s : UpdateSpec) :
    (updates statusAccepts).fill.apply (updateType.encode s) = s.written := by
  change Fill.apply (.object (.property "spec" none specFill .nil))
    (.obj [(lit "spec", UpdateSpec.goType.encode s)]) = _
  have hspec : given? [(lit "spec", UpdateSpec.goType.encode s)] "spec" =
      some (UpdateSpec.goType.encode s) := rfl
  rw [Fill.apply]
  simp only [Fill.apply_given, Fill.apply_nil, hspec, Option.map_some, specFill_encode]
  rfl

theorem accepts_strategy {u : StoredUpdate} {t : GoString}
    (ht : Decimal.signed t = some u.maxUnavailable) :
    strategySchema.accepts (u.strategy t) = true ↔
      u.order = word .workersThenServer ∧ 1 ≤ u.maxUnavailable := by
  have horder : (enumOf ["workers-then-server"]).accepts (.str u.order.text) = true ↔
      u.order = word .workersThenServer := by
    refine lists_orders.accepts.trans ⟨?_, fun hv => ⟨_, hv⟩⟩
    rintro ⟨v, hv⟩
    cases v
    exact hv
  rw [strategySchema, StoredUpdate.strategy, Schema.accepts]
  simp only [List.all_cons, List.all_nil, Bool.true_and, Bool.and_true, Properties.acceptsMember,
    lit_inj, String.reduceEq, reduceIte, Bool.and_eq_true, horder, Schema.accepts, ht,
    Option.all_some, Option.all_none, decide_eq_true_iff]

theorem accepts_verify {u : StoredUpdate} :
    verifySchema.accepts u.verify = true ↔ Known u.signature := by
  have hsignature : (enumOf ["if-signed", "required"]).accepts (.str u.signature.text) = true ↔
      Known u.signature := lists_signatures.accepts
  rw [verifySchema, StoredUpdate.verify, Schema.accepts]
  simp only [List.all_cons, List.all_nil, Bool.true_and, Bool.and_true, Properties.acceptsMember,
    reduceIte, hsignature]

/-- The schema accepts an Update with every field set when it is complete. -/
theorem accepts_storedAs (statusAccepts : Json → Bool) {u : StoredUpdate} {t : GoString}
    (ht : Decimal.signed t = some u.maxUnavailable) :
    (updates statusAccepts).schema.accepts (storedAs u t) = true ↔ u.Complete := by
  have hspec : specSchema.accepts (u.spec t) = true ↔ u.Complete := by
    rw [specSchema, StoredUpdate.spec, Schema.accepts]
    simp only [List.all_cons, List.all_nil, Bool.true_and, Bool.and_true, member?, List.find?_cons,
      decide_true, Option.map_some, Option.isSome_some, Properties.acceptsMember, lit_inj,
      String.reduceEq, reduceIte, Bool.and_eq_true, Schema.accepts, accepts_strategy ht,
      accepts_verify]
    exact ⟨fun h => ⟨h.1, h.2.1.1, h.2.1.2, h.2.2⟩,
      fun h => ⟨h.version, ⟨h.order, h.maxUnavailable⟩, h.signature⟩⟩
  change (Schema.object ["spec"] (.property "spec" specSchema .nil) []).accepts
    (.obj [(lit "spec", u.spec t)]) = true ↔ _
  rw [Schema.accepts]
  simp only [List.all_cons, List.all_nil, Bool.true_and, Bool.and_true, member?, List.find?_cons,
    decide_true, Option.map_some, Option.isSome_some, Properties.acceptsMember, reduceIte, hspec]

theorem holds_written {s : UpdateSpec} (h : s.withDefaults.stored.Complete) :
    Holds s.written s.withDefaults.stored :=
  ⟨h, _, rfl, Decimal.signed_ofInt _⟩

/-- A spec that a client may write over `s`. -/
structure UpdateSpec.Replaces (s' s : UpdateSpec) : Prop where
  complete : s'.withDefaults.stored.Complete
  version : s'.version = s.version
  cancel : s.cancel = true → s'.cancel = true

theorem admitted_encode {statusAccepts : Json → Bool} {o v : Json} {s s' : UpdateSpec}
    (ho : Holds o s.stored) :
    (updates statusAccepts).admitted (some o) (updateType.encode s') = some v ↔
      v = s'.written ∧ s'.Replaces s := by
  rw [Resource.admitted_eq_some, fill_encode]
  refine and_congr_right fun hv => ?_
  rw [hv, UpdateSpec.written, accepts_storedAs _ (Decimal.signed_ofInt _)]
  constructor
  · rintro ⟨hcomplete, hallows⟩
    have hfollows := (allows_iff ho (holds_written hcomplete)).mp (hallows o rfl)
    exact ⟨hcomplete, hfollows.version, hfollows.cancel⟩
  · intro h
    refine ⟨h.complete, fun o' ho' => ?_⟩
    cases ho'
    exact (allows_iff ho (holds_written h.complete)).mpr ⟨h.version, h.cancel⟩

/-- A client's update of an Update it can read: it is served exactly when the new spec is
complete with its defaults, keeps the version and does not take back a cancel. The client then
reads what it wrote with the defaults filled in, and no other Update has changed. What it has
read it can write back as it is. -/
theorem client_update (statusAccepts : Json → Bool) (qs : List Request) {name : GoString}
    {s : UpdateSpec} (hs : specAt (storeAfter statusAccepts qs) name = some s) (s' : UpdateSpec) :
    let served := (updates statusAccepts).serve (storeAfter statusAccepts qs)
      (.update name (updateType.encode s'))
    (served.isSome = true ↔ s'.Replaces s) ∧
      (∀ st ∈ served, specAt st name = some s'.withDefaults ∧
        ∀ other ≠ name, st other = storeAfter statusAccepts qs other) ∧
      s.Replaces s ∧ s.withDefaults = s := by
  intro served
  obtain ⟨o, ho, hread⟩ := Option.bind_eq_some_iff.mp hs
  obtain ⟨u, hholds⟩ := stored_holds statusAccepts qs ho
  obtain rfl : s.stored = u := stored_of_read (hholds.reads.symm.trans hread)
  obtain ⟨x, hx, rfl⟩ := Option.map_eq_some_iff.mp ho
  have hserved : served = ((updates statusAccepts).admitted (some x.object)
      (updateType.encode s')).map fun v =>
        Function.update (storeAfter statusAccepts qs) name (some { x with object := v }) := by
    change Resource.serve _ _ _ = _
    rw [Resource.serve, hx, Option.bind_some]
  have hkept : s.withDefaults = s := withDefaults_eq hholds.complete
  refine ⟨?_, ?_, ⟨hkept.symm ▸ hholds.complete, rfl, id⟩, hkept⟩
  · rw [hserved, Option.isSome_map, Option.isSome_iff_exists]
    exact ⟨fun h => ((admitted_encode hholds).mp h.choose_spec).2,
      fun h => ⟨_, (admitted_encode hholds).mpr ⟨rfl, h⟩⟩⟩
  · intro st hst
    rw [hserved, Option.mem_def, Option.map_eq_some_iff] at hst
    obtain ⟨v, hv, rfl⟩ := hst
    obtain ⟨rfl, hreplaces⟩ := (admitted_encode hholds).mp hv
    constructor
    · rw [specAt, objectAt_update, if_pos rfl, Option.map_some, Option.bind_some,
        (holds_written hreplaces.complete).reads, read_stored]
    · exact fun other hother => Function.update_of_ne hother _ _

theorem client_update_cancels :
    let st := storeAfter (fun _ => true) [.create (lit "current") plainRequest]
    specAt st (lit "current") = some plainSpec ∧
      ((updates fun _ => true).serve st (.update (lit "current")
        (updateType.encode { plainSpec with cancel := true }))).isSome = true := by
  intro st
  have hs : specAt st (lit "current") = some plainSpec := by decide +kernel
  have hcomplete : (UpdateSpec.withDefaults { plainSpec with cancel := true }).stored.Complete :=
    ⟨by decide +kernel, by decide, by decide, .ifSigned, by decide⟩
  exact ⟨hs, (client_update _ _ hs _).1.mpr ⟨hcomplete, rfl, fun _ => rfl⟩⟩

end K3smApis.Updates
