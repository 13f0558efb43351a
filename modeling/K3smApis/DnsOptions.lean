import K3smApis.NetAddr
import K3smApis.Utf8

/-!
# DNS configuration

`DNSConfig.Validate` of `net/v1/dns.go`, and the resolver line its options are written to. An
option that is accepted is one word with its name before the first colon, so the line read
back has the same options. Addresses are `netip`'s: how a text is parsed to one is a
parameter.
-/
namespace K3smApis.Net
open Ascii Check Utf8

def defaultNDots : Int32 := 5
def maxNameservers : ℕ := 3
def dnsPolicyClusterFirst : GoString := []
def dnsPolicyNone : GoString := lit "None"

structure DNSOption where
  name : GoString
  value : GoString := []
  deriving DecidableEq, Repr

structure DNSConfig where
  clusterDNSIP : GoString := []
  clusterDomain : GoString := []
  ndots : Int32 := 0
  policy : GoString := []
  nameservers : List GoString := []
  options : List DNSOption := []
  deriving DecidableEq, Repr

/-- `netip.ParseAddr` and `Addr.Zone`. -/
structure NetIP (Addr : Type) where
  parseAddr : GoString → Option Addr
  zone : Addr → GoString

/-- `unicode.IsControl`. -/
def isControl (c : Char) : Bool := c.toNat < 0x20 || (0x7f ≤ c.toNat && c.toNat < 0xa0)

def hasSpaceOrControl (s : GoString) : Bool :=
  (runes s).any (fun r => Text.isSpace r || isControl r)

def validateDNSOption (o : DNSOption) : Check := do
  refuseIf (o.name = []) [.s "dns option name is empty"]
  refuseIf (equalFold o.name (lit "ndots") = true)
    [.s "dns option ", .q o.name, .s " is not allowed; set ndots instead"]
  refuseIf (hasSpaceOrControl o.name = true)
    [.s "dns option name ", .q o.name, .s " contains whitespace or a control character"]
  refuseIf (colon ∈ o.name ∨ equals ∈ o.name)
    [.s "dns option name ", .q o.name, .s " contains a ':' or '=' separator"]
  refuseIf (hasSpaceOrControl o.value = true)
    [.s "dns option ", .q o.name, .s " value ", .q o.value,
      .s " contains whitespace or a control character"]

section
variable {Addr : Type} [DecidableEq Addr] (netip : NetIP Addr)

/-- The loop over the nameservers, with the addresses seen. -/
def checkNameservers : List Addr → List GoString → Check
  | _, [] => .ok ()
  | seen, s :: ns =>
    match netip.parseAddr s with
    | none => .error [.s "dns config nameserver ", .q s, .s " is not an IP address"]
    | some addr => do
      refuseIf (netip.zone addr ≠ [])
        [.s "dns config nameserver ", .q s, .s " must not carry a zone"]
      refuseIf (addr ∈ seen) [.s "dns config nameserver ", .q s, .s " is repeated"]
      checkNameservers (addr :: seen) ns

def validateNameservers (ns : List GoString) : Check := do
  refuseIf (ns = []) [.s "dns config policy None requires at least one nameserver"]
  refuseIf (maxNameservers < ns.length)
    [.s "dns config has ", .d ns.length, .s " nameservers, at most ", .d maxNameservers,
      .s " allowed"]
  checkNameservers netip [] ns

/-- The switch on the policy. -/
def DNSConfig.checkPolicy (c : DNSConfig) : Check :=
  if c.policy = dnsPolicyClusterFirst then do
    refuseIf (c.clusterDNSIP = []) [.s "dns config missing clusterDNSIP"]
    refuseIf (c.clusterDomain = []) [.s "dns config missing clusterDomain"]
    refuseIf (c.nameservers ≠ []) [.s "dns config policy ClusterFirst must not set nameservers"]
    refuseIf (c.options ≠ []) [.s "dns config policy ClusterFirst must not set options"]
  else if c.policy = dnsPolicyNone then do
    validateNameservers netip c.nameservers
    refuseIf (c.clusterDNSIP ≠ []) [.s "dns config policy None must not set clusterDNSIP"]
  else .error [.s "dns config policy ", .q c.policy, .s " is unknown; the only values are ",
    .q dnsPolicyClusterFirst, .s " (ClusterFirst) and ", .q dnsPolicyNone]

/-- The loop over the options, from index `i`. -/
def checkOptions : ℕ → List DNSOption → Check
  | _, [] => .ok ()
  | i, o :: os => do
    within [.s "dns config option ", .d i, .s ": "] (validateDNSOption o)
    checkOptions (i + 1) os

def DNSConfig.validate (c : DNSConfig) : Check := do
  c.checkPolicy netip
  refuseIf (c.ndots < 0) [.s "dns config ndots ", .d c.ndots.toInt, .s " is negative"]
  checkOptions 0 c.options

def DNSConfig.servers (c : DNSConfig) : List GoString :=
  if c.policy = dnsPolicyClusterFirst then
    if c.clusterDNSIP = [] then [] else [c.clusterDNSIP]
  else if c.policy = dnsPolicyNone then c.nameservers
  else []

def DNSConfig.withDefaults (c : DNSConfig) : DNSConfig :=
  if c.ndots = 0 then { c with ndots := defaultNDots } else c

/-- An option that is accepted. -/
structure DNSOption.Valid (o : DNSOption) : Prop where
  name_ne_nil : o.name ≠ []
  not_ndots : equalFold o.name (lit "ndots") = false
  name_plain : hasSpaceOrControl o.name = false
  no_colon : colon ∉ o.name
  no_equals : equals ∉ o.name
  value_plain : hasSpaceOrControl o.value = false

theorem validateDNSOption_ok {o : DNSOption} : validateDNSOption o = .ok () ↔ o.Valid := by
  unfold validateDNSOption
  simp only [bind_ok, refuseIf_ok, Bool.not_eq_true, not_or]
  constructor
  · rintro ⟨hname, hndots, hplain, ⟨hcolon, hequals⟩, hvalue⟩
    exact ⟨hname, hndots, hplain, hcolon, hequals, hvalue⟩
  · rintro ⟨hname, hndots, hplain, hcolon, hequals, hvalue⟩
    exact ⟨hname, hndots, hplain, ⟨hcolon, hequals⟩, hvalue⟩

theorem checkOptions_ok {i : ℕ} {os : List DNSOption} :
    checkOptions i os = .ok () ↔ ∀ o ∈ os, o.Valid := by
  induction os generalizing i with
  | nil => simp [checkOptions]
  | cons o os ih =>
    rw [checkOptions, bind_ok, within_ok, validateDNSOption_ok, ih, List.forall_mem_cons]

variable {netip}

/-- The nameservers that are accepted: addresses without a zone, none of them twice. -/
theorem checkNameservers_ok {seen : List Addr} {ns : List GoString} :
    checkNameservers netip seen ns = .ok () ↔ ∃ addrs : List Addr,
      ns.map netip.parseAddr = addrs.map some ∧ (∀ a ∈ addrs, netip.zone a = [] ∧ a ∉ seen) ∧
        addrs.Nodup := by
  induction ns generalizing seen with
  | nil =>
    refine iff_of_true rfl ⟨[], rfl, by simp, List.nodup_nil⟩
  | cons s ns ih =>
    rw [checkNameservers]
    cases hparse : netip.parseAddr s with
    | none =>
      refine iff_of_false (by simp) ?_
      rintro ⟨addrs, hmap, -⟩
      cases addrs <;> simp [hparse] at hmap
    | some addr =>
      dsimp only
      rw [bind_ok, bind_ok, refuseIf_ok, refuseIf_ok, ih, not_not]
      constructor
      · rintro ⟨hzone, hseen, addrs, hmap, haddrs, hnodup⟩
        refine ⟨addr :: addrs, by simp [hparse, hmap], ?_, List.nodup_cons.mpr ⟨?_, hnodup⟩⟩
        · refine List.forall_mem_cons.mpr ⟨⟨hzone, hseen⟩, fun a ha => ?_⟩
          exact ⟨(haddrs a ha).1, fun h => (haddrs a ha).2 (List.mem_cons_of_mem _ h)⟩
        · exact fun h => (haddrs addr h).2 (List.mem_cons_self ..)
      · rintro ⟨addrs, hmap, haddrs, hnodup⟩
        cases addrs with
        | nil => simp at hmap
        | cons a addrs =>
          obtain ⟨hhead, htail⟩ : addr = a ∧ ns.map netip.parseAddr = addrs.map some := by
            simpa [hparse] using hmap
          subst hhead
          obtain ⟨⟨hzone, hseen⟩, hrest⟩ := List.forall_mem_cons.mp haddrs
          obtain ⟨hnew, hnodup⟩ := List.nodup_cons.mp hnodup
          refine ⟨hzone, hseen, addrs, htail, fun b hb => ⟨(hrest b hb).1, fun h => ?_⟩, hnodup⟩
          rcases List.mem_cons.mp h with rfl | h
          · exact hnew hb
          · exact (hrest b hb).2 h

/-- A config that is accepted has options that are. -/
theorem DNSConfig.validate_ok {c : DNSConfig} :
    c.validate netip = .ok () ↔
      c.checkPolicy netip = .ok () ∧ ¬c.ndots < 0 ∧ ∀ o ∈ c.options, o.Valid := by
  unfold validate
  rw [bind_ok, bind_ok, refuseIf_ok, checkOptions_ok]

/-- A config that is accepted names a server. -/
theorem DNSConfig.servers_ne_nil {c : DNSConfig} (h : c.validate netip = .ok ()) :
    c.servers ≠ [] := by
  have hpolicy := (validate_ok.mp h).1
  unfold checkPolicy at hpolicy
  unfold servers
  by_cases hfirst : c.policy = dnsPolicyClusterFirst
  · rw [if_pos hfirst, bind_ok, refuseIf_ok] at hpolicy
    rw [if_pos hfirst, if_neg hpolicy.1]
    exact List.cons_ne_nil _ _
  · rw [if_neg hfirst] at hpolicy ⊢
    by_cases hnone : c.policy = dnsPolicyNone
    · rw [if_pos hnone, bind_ok, validateNameservers, bind_ok, refuseIf_ok] at hpolicy
      rw [if_pos hnone]
      exact hpolicy.1.1
    · rw [if_neg hnone] at hpolicy
      cases hpolicy

/-- The defaults keep a config accepted. -/
theorem DNSConfig.validate_withDefaults {c : DNSConfig} (h : c.validate netip = .ok ()) :
    c.withDefaults.validate netip = .ok () := by
  obtain ⟨hpolicy, hndots, hoptions⟩ := validate_ok.mp h
  unfold withDefaults
  split_ifs with hzero
  · exact validate_ok.mpr ⟨hpolicy, (by decide : ¬defaultNDots < 0), hoptions⟩
  · exact h

end

/-- An option as it is written: the name, and a value behind a colon unless it is empty. -/
def DNSOption.render (o : DNSOption) : GoString :=
  if o.value = [] then o.name else o.name ++ colon :: o.value

/-- The options of a line, with a space between them. -/
def renderOptions (os : List DNSOption) : GoString := [space].intercalate (os.map DNSOption.render)

/-- A word read back: the name, and the value if there is a colon. -/
def readOption (w : GoString) : GoString × Option GoString :=
  match w.dropWhile (· ≠ colon) with
  | [] => (w, none)
  | _ :: value => (w.takeWhile (· ≠ colon), some value)

/-- The options of a line, by the white space of a reader. -/
def readOptions (sep : Char → Bool) (line : GoString) : List (GoString × Option GoString) :=
  (fields sep line).map readOption

/-- An option with the value a reader has to find. -/
def DNSOption.parts (o : DNSOption) : GoString × Option GoString :=
  (o.name, if o.value = [] then none else some o.value)

theorem readOption_render {o : DNSOption} (h : o.Valid) : readOption o.render = o.parts := by
  have hname : ∀ b ∈ o.name, (decide (b ≠ colon)) = true := fun b hb =>
    decide_eq_true fun heq => h.no_colon (heq ▸ hb)
  unfold DNSOption.render DNSOption.parts readOption
  by_cases hvalue : o.value = []
  · rw [if_pos hvalue, if_pos hvalue, List.dropWhile_eq_nil_iff.mpr hname]
  · rw [if_neg hvalue, if_neg hvalue, List.dropWhile_append_of_pos hname,
      List.takeWhile_append_of_pos hname, List.dropWhile_cons_of_neg (by simp),
      List.takeWhile_cons_of_neg (by simp), List.append_nil]

/-- No rune of an option as it is written is white space. -/
theorem DNSOption.Valid.render_word {o : DNSOption} (h : o.Valid) :
    o.render ≠ [] ∧ ∀ c ∈ runes o.render, Text.isSpace c = false := by
  have hplain : ∀ {s : GoString}, hasSpaceOrControl s = false →
      ∀ c ∈ runes s, Text.isSpace c = false := by
    intro s hs c hc
    have hrune := List.any_eq_false.mp hs c hc
    simp only [Bool.or_eq_true, not_or, Bool.not_eq_true] at hrune
    exact hrune.1
  unfold DNSOption.render
  by_cases hvalue : o.value = []
  · rw [if_pos hvalue]
    exact ⟨h.name_ne_nil, hplain h.name_plain⟩
  · rw [if_neg hvalue]
    refine ⟨List.append_ne_nil_of_left_ne_nil h.name_ne_nil _, fun c hc => ?_⟩
    rw [runes_append _ _ (by decide), List.mem_append, List.mem_cons] at hc
    rcases hc with hc | rfl | hc
    · exact hplain h.name_plain c hc
    · decide
    · exact hplain h.value_plain c hc

/-- Words with a space between them are read back. -/
theorem fields_intercalate {sep : Char → Bool} (hspace : sep ' ' = true) {ws : List GoString}
    (h : ∀ w ∈ ws, w ≠ [] ∧ ∀ c ∈ runes w, sep c = false) :
    fields sep ([space].intercalate ws) = ws := by
  induction ws with
  | nil => rfl
  | cons w ws ih =>
    obtain ⟨⟨hne, hw⟩, hws⟩ := List.forall_mem_cons.mp h
    cases ws with
    | nil =>
      rw [List.intercalate_singleton]
      exact fields_word hne hw
    | cons w' ws =>
      rw [List.intercalate_cons_cons, List.append_assoc, List.singleton_append]
      have hcut := fields_cons hne hw (a := space) (by decide) hspace
        ([space].intercalate (w' :: ws))
      rw [hcut, ih hws]

/-- The options of an accepted config, written to a line and read back by any reader that
takes a space, and no rune but white space, for a separator, are the options of the config;
none of them is ndots in any case of its letters. -/
theorem options_read_back {Addr : Type} [DecidableEq Addr] (netip : NetIP Addr) (c : DNSConfig)
    (hc : c.validate netip = .ok ()) (sep : Char → Bool) (hspace : sep ' ' = true)
    (hsep : ∀ r, sep r = true → Text.isSpace r = true) :
    readOptions sep (renderOptions c.options) = c.options.map DNSOption.parts ∧
      ∀ o ∈ readOptions sep (renderOptions c.options), foldCase o.1 ≠ lit "ndots" := by
  obtain ⟨-, -, hvalid⟩ := DNSConfig.validate_ok.mp hc
  have hwords : ∀ w ∈ c.options.map DNSOption.render, w ≠ [] ∧ ∀ r ∈ runes w, sep r = false := by
    intro w hw
    obtain ⟨o, ho, rfl⟩ := List.mem_map.mp hw
    obtain ⟨hne, hplain⟩ := (hvalid o ho).render_word
    refine ⟨hne, fun r hr => ?_⟩
    by_contra hsome
    have hblank := hsep r (by simpa using hsome)
    simp [hplain r hr] at hblank
  have hread : readOptions sep (renderOptions c.options) = c.options.map DNSOption.parts := by
    rw [readOptions, renderOptions, fields_intercalate hspace hwords, List.map_map]
    exact List.map_congr_left fun o ho => readOption_render (hvalid o ho)
  refine ⟨hread, fun p hp hndots => ?_⟩
  rw [hread] at hp
  obtain ⟨o, ho, rfl⟩ := List.mem_map.mp hp
  have hascii : (lit "ndots").all (fun b => b < 0x80) = true := by decide
  have hfold : equalFold o.name (lit "ndots") = true :=
    equalFold_of_foldCase (fun b hb => of_decide_eq_true (List.all_eq_true.mp hascii b hb))
      (hndots.trans (by decide))
  exact absurd (hvalid o ho).not_ndots (by simp [hfold])

/-- The addresses of `netip`. -/
def goAddr : NetIP GoNet.Addr := ⟨GoNet.parseAddr, GoNet.Addr.zone⟩

/-- Nameservers of both families, and two options. -/
def twoServers : DNSConfig where
  policy := lit "None"
  nameservers := [lit "10.0.0.1", lit "fd00::53"]
  options := [⟨lit "edns0", []⟩, ⟨lit "timeout", lit "2"⟩]

theorem options_read_back_twoServers :
    readOptions Text.isSpace (lit "edns0 timeout:2") =
      [(lit "edns0", none), (lit "timeout", some (lit "2"))] := by
  have h := (options_read_back goAddr twoServers (by decide +kernel)
    Text.isSpace (by decide) (fun _ h => h)).1
  have hline : renderOptions twoServers.options = lit "edns0 timeout:2" := by decide +kernel
  rw [hline] at h
  exact h.trans (by decide +kernel)

end K3smApis.Net
