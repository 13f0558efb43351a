import K3smApis.DnsName
import K3smApis.SlashPath

/-!
# Volume directories

`storage/v1/storage.go`: the local-path class and the directory of a claim. A namespace and
a claim are names from a closed set of bytes, so the directories of two claims under one
base are apart whatever the file system makes of case.
-/
namespace K3smApis.Storage
open Check SlashPath DnsName

def defaultStorageClassName : GoString := lit "local-path"
def provisionerName : GoString := lit "k3sm.io/local-path"
def defaultBasePath : GoString := lit "/var/lib/k3sm/storage"
def reclaimRetain : GoString := lit "Retain"
def bindingWaitForFirstConsumer : GoString := lit "WaitForFirstConsumer"
def maxDNSLabelLen : ℕ := 63
def maxDNSSubdomainLen : ℕ := 253

structure LocalPathClass where
  name : GoString := []
  provisioner : GoString := []
  basePath : GoString := []
  reclaimPolicy : GoString := []
  volumeBindingMode : GoString := []
  deriving DecidableEq, Repr

/-- `if v == "" { v = d }`. -/
def orDefault (v d : GoString) : GoString := if v = [] then d else v

def LocalPathClass.withDefaults (c : LocalPathClass) : LocalPathClass where
  name := orDefault c.name defaultStorageClassName
  provisioner := orDefault c.provisioner provisionerName
  basePath := orDefault c.basePath defaultBasePath
  reclaimPolicy := orDefault c.reclaimPolicy reclaimRetain
  volumeBindingMode := orDefault c.volumeBindingMode bindingWaitForFirstConsumer

def LocalPathClass.validate (c : LocalPathClass) : Check := do
  refuseIf (c.name = []) [.s "storage class missing name"]
  refuseIf (c.provisioner = []) [.s "storage class ", .q c.name, .s " missing provisioner"]
  refuseIf (c.basePath = [] ∨ isRooted c.basePath = false)
    [.s "storage class ", .q c.name, .s " basePath ", .q c.basePath, .s " must be an absolute path"]
  refuseIf (c.reclaimPolicy ≠ reclaimRetain)
    [.s "storage class ", .q c.name, .s " reclaimPolicy ", .q c.reclaimPolicy,
      .s " unsupported (only ", .q reclaimRetain, .s " is supported)"]
  refuseIf (c.volumeBindingMode ≠ bindingWaitForFirstConsumer)
    [.s "storage class ", .q c.name, .s " volumeBindingMode ", .q c.volumeBindingMode,
      .s " unsupported (only ", .q bindingWaitForFirstConsumer, .s " is supported)"]

/-- A compiled expression, anchored at both ends, and its text. -/
structure Regexp where
  text : String
  expr : RegularExpression UInt8

def dnsLabelRe : Regexp := ⟨"^[a-z0-9]([-a-z0-9]*[a-z0-9])?$", label⟩

def dnsSubdomainRe : Regexp :=
  ⟨"^[a-z0-9]([-a-z0-9]*[a-z0-9])?(\\.[a-z0-9]([-a-z0-9]*[a-z0-9])?)*$", subdomain⟩

def validDNSName (kind : String) (v : GoString) (re : Regexp) (max : ℕ) : Check := do
  refuseIf (v = []) [.s "DataDir needs a non-empty ", .s kind]
  refuseIf (max < v.length)
    [.s "DataDir ", .s kind, .s " ", .q v, .s " is longer than ", .d max, .s " bytes"]
  refuseIf (re.expr.rmatch v = false)
    [.s "DataDir ", .s kind, .s " ", .q v, .s " must match ", .s re.text,
      .s " (RFC 1123: lowercase, no separators)"]

/-- The base a class stands for. -/
def LocalPathClass.base (c : LocalPathClass) : GoString := orDefault c.basePath defaultBasePath

def LocalPathClass.dataDir (c : LocalPathClass) (ns claimName : GoString) :
    Except Msg GoString := do
  validDNSName "namespace" ns dnsLabelRe maxDNSLabelLen
  validDNSName "claimName" claimName dnsSubdomainRe maxDNSSubdomainLen
  .ok (join [c.base, ns, claimName])

theorem orDefault_ne_nil {v d : GoString} (hd : d ≠ []) : orDefault v d ≠ [] := by
  unfold orDefault
  split_ifs with h
  · exact hd
  · exact h

theorem LocalPathClass.base_ne_nil (c : LocalPathClass) : c.base ≠ [] :=
  orDefault_ne_nil (by decide)

/-- The defaults change no directory. -/
theorem LocalPathClass.dataDir_withDefaults (c : LocalPathClass) :
    c.withDefaults.dataDir = c.dataDir := by
  have hbase : c.withDefaults.base = c.base := if_neg c.base_ne_nil
  funext ns claim
  rw [dataDir, hbase]
  rfl

theorem validDNSName_ok {kind : String} {v : GoString} {re : Regexp} {max : ℕ} :
    validDNSName kind v re max = .ok () ↔ v ≠ [] ∧ v.length ≤ max ∧ v ∈ re.expr.matches' := by
  unfold validDNSName
  simp only [bind_ok, refuseIf_ok, not_lt, Bool.not_eq_false, RegularExpression.rmatch_iff_matches',
    ne_eq]

theorem isName_of_isDotted {v : GoString} (h : IsDotted v) : IsName v := by
  obtain ⟨b, hb, hhead⟩ := h.first
  refine ⟨?_, ?_, ?_, fun hslash => absurd (h.bytes slash hslash) (by decide)⟩
  · rintro rfl
    cases hhead
  -- "." and ".." start with a dot, which is neither letter nor digit
  · rintro rfl
    obtain rfl : 0x2e = b := Option.some.inj hhead
    exact absurd hb (by decide)
  · rintro rfl
    obtain rfl : 0x2e = b := Option.some.inj hhead
    exact absurd hb (by decide)

theorem foldCase_of_isDotted {v : GoString} (h : IsDotted v) : foldCase v = v := by
  have hlower : (lit "." ++ dashAlnum).all (fun b => lowerByte b = b) = true := by decide
  have hfixed : ∀ b ∈ v, lowerByte b = id b := by
    intro b hb
    exact of_decide_eq_true (List.all_eq_true.mp hlower b (h.bytes b hb))
  rw [foldCase, List.map_congr_left hfixed, List.map_id]

/-- A namespace and a claim that have a directory. -/
structure Accepted (ns claim : GoString) : Prop where
  namespaceLength : ns.length ≤ maxDNSLabelLen
  namespaceLabel : IsLabel ns
  claimLength : claim.length ≤ maxDNSSubdomainLen
  claimSubdomain : IsSubdomain claim

/-- What is joined for an accepted pair. -/
theorem LocalPathClass.dataDir_ok {c : LocalPathClass} {ns claim dir : GoString} :
    c.dataDir ns claim = .ok dir ↔ Accepted ns claim ∧ dir = join [c.base, ns, claim] := by
  unfold dataDir
  simp only [bind_ok, validDNSName_ok, Except.ok.injEq]
  constructor
  · rintro ⟨⟨-, hlen, hlabel⟩, ⟨-, hlen', hsub⟩, rfl⟩
    exact ⟨⟨hlen, mem_label.mp hlabel, hlen', mem_subdomain.mp hsub⟩, rfl⟩
  · rintro ⟨h, rfl⟩
    exact ⟨⟨h.namespaceLabel.ne_nil, h.namespaceLength, mem_label.mpr h.namespaceLabel⟩,
      ⟨(isName_of_isDotted h.claimSubdomain.isDotted).ne_nil, h.claimLength,
        mem_subdomain.mpr h.claimSubdomain⟩, rfl⟩

theorem Accepted.isName {ns claim : GoString} (h : Accepted ns claim) :
    ∀ n ∈ [ns, claim], IsName n := by
  simpa using ⟨isName_of_isDotted h.namespaceLabel.isDotted,
    isName_of_isDotted h.claimSubdomain.isDotted⟩

/-- The directory has the names of the base, the namespace and the claim. -/
theorem Accepted.form_join {ns claim base : GoString} (h : Accepted ns claim) (hbase : base ≠ []) :
    form (join [base, ns, claim]) = ⟨(form base).rooted, (form base).names ++ [ns, claim]⟩ :=
  SlashPath.form_join hbase (fun e he => (h.isName e he).ne_nil) (by simp) rfl (by simp) h.isName

/-- Under one base, the directory gives back the pair, whatever the case of its letters. -/
theorem Accepted.eq_of_foldCase {ns claim ns' claim' base : GoString} (h : Accepted ns claim)
    (h' : Accepted ns' claim') (hbase : base ≠ [])
    (hsame : foldCase (join [base, ns, claim]) = foldCase (join [base, ns', claim'])) :
    (ns, claim) = (ns', claim') := by
  have hrender : ∀ {n m : GoString}, Accepted n m → join [base, n, m] =
      render ⟨(form base).rooted, (form base).names ++ [n, m]⟩ := by
    intro n m hnm
    rw [← hnm.form_join hbase]
    exact join_eq_render _ ⟨base, by simp, hbase⟩
  have hfold : ∀ {n m : GoString}, Accepted n m → foldCase (joined [n, m]) = joined [n, m] := by
    intro n m hnm
    have hjoined : joined [n, m] = n ++ slash :: m := by simp [joined]
    rw [hjoined, foldCase, List.map_append, List.map_cons]
    exact congrArg₂ _ (foldCase_of_isDotted hnm.namespaceLabel.isDotted)
      (congrArg _ (foldCase_of_isDotted hnm.claimSubdomain.isDotted))
  -- the text before the two names is the same for both
  obtain ⟨stem, hstem⟩ := render_append (form base).rooted (form base).names
  have hnames : joined [ns, claim] = joined [ns', claim'] := by
    rw [hrender h, hrender h', hstem _ (by simp), hstem _ (by simp), foldCase, List.map_append,
      foldCase, List.map_append] at hsame
    have htail := List.append_cancel_left hsame
    rwa [← foldCase, ← foldCase, hfold h, hfold h'] at htail
  have helements := congrArg elements hnames
  rw [elements_joined (fun e he => (h.isName e he).no_slash) (by simp),
    elements_joined (fun e he => (h'.isName e he).no_slash) (by simp)] at helements
  simpa using helements

/-- No directory is above another: both are two names below the base. -/
theorem Accepted.not_below {ns claim ns' claim' base : GoString} (h : Accepted ns claim)
    (h' : Accepted ns' claim') (hbase : base ≠ []) :
    ¬Below (join [base, ns, claim]) (join [base, ns', claim']) := by
  rintro ⟨ms, hms, -, hform⟩
  rw [h.form_join hbase, h'.form_join hbase] at hform
  have hlength := congrArg (fun f : Form => f.names.length) hform
  simp only [List.length_append, List.length_cons, List.length_nil] at hlength
  exact hms (List.length_eq_zero_iff.mp (by omega))

/-- The directories of claims are confined to the base and apart from each other. A pair has
a directory when its namespace is a label of at most 63 bytes and its claim labels joined by
dots of at most 253. The directory is the cleaned base with the two names after it. Two pairs
under one base have directories that differ in more than case, and none is inside the other. -/
theorem dataDir_confined (c : LocalPathClass) (ns claim : GoString) :
    ((∃ dir, c.dataDir ns claim = .ok dir) ↔ (ns.length ≤ 63 ∧ IsLabel ns) ∧
      claim.length ≤ 253 ∧ ∃ ls : List GoString, ls ≠ [] ∧ (∀ l ∈ ls, IsLabel l) ∧
        claim = (lit ".").intercalate ls) ∧
    ∀ dir, c.dataDir ns claim = .ok dir →
      dir = render ⟨(form c.base).rooted, (form c.base).names ++ [ns, claim]⟩ ∧
      form dir = ⟨(form c.base).rooted, (form c.base).names ++ [ns, claim]⟩ ∧ Below c.base dir ∧
      ∀ ns' claim' dir', c.dataDir ns' claim' = .ok dir' → (ns, claim) ≠ (ns', claim') →
        foldCase dir ≠ foldCase dir' ∧ ¬Below dir dir' ∧ ¬Below dir' dir := by
  have hbase := c.base_ne_nil
  refine ⟨⟨?_, ?_⟩, fun dir hdir => ?_⟩
  · rintro ⟨dir, hdir⟩
    obtain ⟨h, -⟩ := LocalPathClass.dataDir_ok.mp hdir
    exact ⟨⟨h.namespaceLength, h.namespaceLabel⟩, h.claimLength, h.claimSubdomain⟩
  · rintro ⟨⟨hlen, hlabel⟩, hlen', hsub⟩
    exact ⟨_, LocalPathClass.dataDir_ok.mpr ⟨⟨hlen, hlabel, hlen', hsub⟩, rfl⟩⟩
  · obtain ⟨h, rfl⟩ := LocalPathClass.dataDir_ok.mp hdir
    have hform := h.form_join hbase
    refine ⟨?_, hform, ⟨[ns, claim], by simp, h.isName, hform⟩, fun ns' claim' dir' hdir' hne => ?_⟩
    · rw [← hform]
      exact join_eq_render _ ⟨c.base, by simp, hbase⟩
    · obtain ⟨h', rfl⟩ := LocalPathClass.dataDir_ok.mp hdir'
      exact ⟨fun hsame => hne (h.eq_of_foldCase h' hbase hsame), h.not_below h' hbase,
        h'.not_below h hbase⟩

theorem dataDir_confined_default :
    ({} : LocalPathClass).dataDir (lit "default") (lit "data-db.0") =
      .ok (lit "/var/lib/k3sm/storage/default/data-db.0") ∧
    Below (lit "/var/lib/k3sm/storage") (lit "/var/lib/k3sm/storage/default/data-db.0") := by
  have h : ({} : LocalPathClass).dataDir (lit "default") (lit "data-db.0") =
      .ok (lit "/var/lib/k3sm/storage/default/data-db.0") := by decide +kernel
  exact ⟨h, ((dataDir_confined {} _ _).2 _ h).2.2.1⟩

/-- The directories of a class that validates are absolute. -/
theorem LocalPathClass.dataDir_rooted {c : LocalPathClass} {ns claim dir : GoString}
    (hc : c.validate = .ok ()) (hdir : c.dataDir ns claim = .ok dir) : isRooted dir = true := by
  unfold validate at hc
  simp only [bind_ok, refuseIf_ok, not_or, Bool.not_eq_false] at hc
  obtain ⟨-, -, ⟨hne, hrooted⟩, -⟩ := hc
  obtain ⟨h, rfl⟩ := dataDir_ok.mp hdir
  have hbase : c.base = c.basePath := if_neg hne
  have hform := congrArg Form.rooted (h.form_join c.base_ne_nil)
  rw [hbase] at hform ⊢
  exact hform.trans hrooted

end K3smApis.Storage
