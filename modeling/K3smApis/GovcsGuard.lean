import K3smApis.DepsCheck

/-!
# The guard of GOVCS

`cmd_govcs` of hack/verify-deps.sh beside a go command that reads the same value as its
documentation says. The guard cuts an entry at its last colon, the go command at its first,
so that the guard looks at one list of names and the go command at another.
-/
namespace K3smApis.Deps

/-- A rule of GOVCS: a pattern, and the version control systems it allows. -/
structure VcsRule where
  pattern : Text
  allowed : List Text
  deriving DecidableEq, Repr

/-- A go command: the rules it reads from a value, whether a pattern applies to a module,
which may be private, and whether rules allow a version control system for it. -/
structure GoVcs where
  parse : Text → Option (List VcsRule)
  applies : Text → Text → Bool → Bool
  allows : List VcsRule → Text → Bool → Text → Bool

def privatePattern : Text := "private".toList
def publicPattern : Text := "public".toList

/-- The rule of an entry: cut at the first colon, with the blanks around each part trimmed. -/
def EntryRule (item : Text) (r : VcsRule) : Prop :=
  ∃ a b : Text, ':' ∉ a ∧ item.trimSpace = a ++ ':' :: b ∧ r.pattern = a.trimSpace ∧
    r.allowed = (b.trimSpace.splitOn '|').map Text.trimSpace

/-- What is assumed of a go command: a value is a list of entries, the first rule whose
pattern applies decides, and behind them stands `public:git|hg,private:all`. -/
structure GoVcs.Documented (go : GoVcs) : Prop where
  parse : ∀ {value rules}, go.parse value = some rules →
    ∀ r ∈ rules, ∃ item ∈ value.splitOn ',', EntryRule item r
  privates : ∀ path isPrivate, go.applies privatePattern path isPrivate = isPrivate
  publics : ∀ path isPrivate, go.applies publicPattern path isPrivate = !isPrivate
  first : ∀ {r rules path isPrivate vcs}, go.allows (r :: rules) path isPrivate vcs = true ↔
    if go.applies r.pattern path isPrivate then vcs ∈ r.allowed ∨ "all".toList ∈ r.allowed
    else go.allows rules path isPrivate vcs = true
  default : ∀ {path isPrivate vcs}, go.allows [] path isPrivate vcs = true ↔
    isPrivate = true ∨ vcs = "git".toList ∨ vcs = "hg".toList

/-- The names the guard lets an entry allow. -/
def plainVcs : List Text := ["git".toList, "hg".toList, "off".toList]

theorem strip_eq_trimSpace {t : Text} (h : ∀ c ∈ t, isSpace c = Text.isSpace c) :
    strip t = t.trimSpace := by
  have hdrop {l : Text} (hl : ∀ c ∈ l, isSpace c = Text.isSpace c) :
      l.dropWhile isSpace = l.dropWhile Text.isSpace := by
    induction l with
    | nil => rfl
    | cons c l ih =>
      obtain ⟨hc, hl⟩ := List.forall_mem_cons.mp hl
      rw [List.dropWhile_cons, List.dropWhile_cons, hc, ih hl]
  have hrest : ∀ c ∈ (t.dropWhile Text.isSpace).reverse, isSpace c = Text.isSpace c := by
    intro c hc
    exact h c ((List.dropWhile_suffix _).mem (List.mem_reverse.mp hc))
  rw [strip, Text.trimSpace, hdrop h, List.rdropWhile, List.rdropWhile, hdrop hrest]

theorem rcutColon_append {a b : Text} (hb : ':' ∉ b) : rcutColon (a ++ ':' :: b) = some (a, b) := by
  have hkeep : ∀ c ∈ b.reverse, decide (c ≠ ':') = true := by
    intro c hc
    refine decide_eq_true fun heq => hb ?_
    rw [← heq]
    exact List.mem_reverse.mp hc
  have hreverse : (a ++ ':' :: b).reverse = b.reverse ++ ':' :: a.reverse := by simp
  rw [rcutColon, if_pos (by simp), List.rdropWhile, List.rtakeWhile, hreverse,
    List.dropWhile_append_of_pos hkeep, List.takeWhile_append_of_pos hkeep]
  simp

theorem takeWhile_colon {a b : Text} (ha : ':' ∉ a) :
    (a ++ ':' :: b).takeWhile (· ≠ ':') = a ∧ (a ++ ':' :: b).dropWhile (· ≠ ':') = ':' :: b := by
  have hkeep : ∀ c ∈ a, decide (c ≠ ':') = true :=
    fun c hc => decide_eq_true fun heq => ha (heq ▸ hc)
  rw [List.takeWhile_append_of_pos hkeep, List.dropWhile_append_of_pos hkeep]
  simp

theorem trimSpace_of_solid {t : Text} (h : ∀ c ∈ t, Text.isSpace c = false) : t.trimSpace = t := by
  have hdrop {l : Text} (hl : ∀ c ∈ l, Text.isSpace c = false) : l.dropWhile Text.isSpace = l := by
    cases l with
    | nil => rfl
    | cons c l => exact List.dropWhile_cons_of_neg (by simp [hl c List.mem_cons_self])
  rw [Text.trimSpace, hdrop h, List.rdropWhile, hdrop fun c hc => h c (List.mem_reverse.mp hc),
    List.reverse_reverse]

/-- A list of plain names holds no blank. -/
theorem allowed_eq {b : Text} (h : ∀ v ∈ b.splitOn '|', v ∈ plainVcs) :
    (b.trimSpace.splitOn '|').map Text.trimSpace = b.splitOn '|' := by
  have hplain : plainVcs.all (fun v => v.all (fun c => !Text.isSpace c)) = true := by decide
  have hparts : ∀ v ∈ b.splitOn '|', ∀ c ∈ v, Text.isSpace c = false := by
    intro v hv c hc
    have hall := List.all_eq_true.mp hplain v (h v hv)
    simpa using List.all_eq_true.mp hall c hc
  have hsolid : ∀ c ∈ b, Text.isSpace c = false := by
    intro c hc
    have hjoined : c ∈ Lines.terminated '|' (b.splitOn '|') := by
      rw [terminated_splitOn]
      exact List.mem_append_left _ hc
    obtain ⟨v, hv, hc⟩ := List.mem_flatMap.mp hjoined
    rcases List.mem_append.mp hc with hc | hbar
    · exact hparts v hv c hc
    · rw [List.mem_singleton.mp hbar]
      decide
  rw [trimSpace_of_solid hsolid]
  exact (List.map_congr_left fun v hv => trimSpace_of_solid (hparts v hv)).trans (List.map_id' _)

/-- An entry with one colon that the guard lets pass gives a rule for private modules, or one
that allows plain names only. -/
theorem govcsEntry_rule {item : Text} {r : VcsRule}
    (hspace : ∀ c ∈ item, isSpace c = Text.isSpace c) (hcolon : item.count ':' ≤ 1)
    (hguard : govcsEntry item = true) (hrule : EntryRule item r) :
    r.pattern = privatePattern ∨ ∀ v ∈ r.allowed, v ∈ plainVcs := by
  obtain ⟨a, b, ha, ht, hpattern, hallowed⟩ := hrule
  have hcount : (a ++ ':' :: b).count ':' ≤ 1 := by
    rw [← ht]
    exact (List.Sublist.count_le ':' (Text.trimSpace_isInfix item).sublist).trans hcolon
  have hb : ':' ∉ b := by
    rw [List.count_append, List.count_cons_self] at hcount
    exact List.count_eq_zero.mp (by omega)
  rw [govcsEntry, strip_eq_trimSpace hspace, ht, rcutColon_append hb] at hguard
  simp only [List.append_eq_nil_iff, List.cons_ne_nil, and_false, decide_false, Bool.false_or,
    Bool.or_eq_true, decide_eq_true_eq, List.all_eq_true] at hguard
  rw [hpattern, hallowed]
  rcases hguard with rfl | hplain
  · have hsolid : privatePattern.all (fun c => Text.isSpace c == false) = true := by decide
    exact .inl (trimSpace_of_solid fun c hc =>
      eq_of_beq (List.all_eq_true.mp hsolid c hc))
  · right
    rw [allowed_eq hplain]
    exact hplain

section Guard

variable {go : GoVcs} (hgo : go.Documented)

include hgo

/-- Rules for private modules, and rules that allow plain names, allow nothing that is not
allowed by default. -/
theorem GoVcs.Documented.allows_default {rules : List VcsRule}
    (hplain : ∀ r ∈ rules, r.pattern = privatePattern ∨ ∀ v ∈ r.allowed, v ∈ plainVcs)
    {path : Text} {isPrivate : Bool} {vcs : Text} (hvcs : vcs ≠ "off".toList)
    (h : go.allows rules path isPrivate vcs = true) : go.allows [] path isPrivate vcs = true := by
  induction rules with
  | nil => exact h
  | cons r rules ih =>
    obtain ⟨hr, hplain⟩ := List.forall_mem_cons.mp hplain
    rw [hgo.first] at h
    split_ifs at h with happlies
    · rw [hgo.default]
      rcases hr with hprivate | hnames
      · rw [hprivate, hgo.privates] at happlies
        exact .inl happlies
      · right
        have hall : "all".toList ∉ r.allowed := fun hmem => absurd (hnames _ hmem) (by decide)
        have hname := hnames vcs (h.resolve_right hall)
        simp only [plainVcs, List.mem_cons, List.not_mem_nil, or_false] at hname
        rcases hname with hgit | hhg | hoff
        · exact .inl hgit
        · exact .inr hhg
        · exact absurd hoff hvcs
    · exact ih hplain h

/-- A value that the guard lets pass and whose entries have one colon each. -/
theorem GoVcs.Documented.rules_plain {value : Text} {rules : List VcsRule}
    (hspace : ∀ c ∈ value, isSpace c = Text.isSpace c)
    (hcolon : ∀ item ∈ value.splitOn ',', item.count ':' ≤ 1) (hguard : cmdGovcs value = true)
    (hrules : go.parse value = some rules) :
    ∀ r ∈ rules, r.pattern = privatePattern ∨ ∀ v ∈ r.allowed, v ∈ plainVcs := by
  intro r hr
  obtain ⟨item, hitem, hrule⟩ := hgo.parse hrules r hr
  refine govcsEntry_rule (fun c hc => hspace c ?_) (hcolon item hitem)
    (List.all_eq_true.mp hguard item hitem) hrule
  exact Lines.subset_of_mem_splitOn hitem hc

end Guard

/-- An entry that the guard reads as a rule for the pattern `public:all|x`. -/
def twoColons : Text := "public:all|x:git".toList

theorem entryRule_twoColons {r : VcsRule} (h : EntryRule twoColons r) :
    r.pattern = publicPattern ∧ r.allowed = ["all".toList, "x:git".toList] := by
  obtain ⟨a, b, ha, ht, hpattern, hallowed⟩ := h
  obtain ⟨hfront, hback⟩ := takeWhile_colon (b := b) ha
  rw [← ht] at hfront hback
  have hname : twoColons.trimSpace.takeWhile (· ≠ ':') = publicPattern := by decide +kernel
  have hlist : twoColons.trimSpace.dropWhile (· ≠ ':') = ":all|x:git".toList := by decide +kernel
  obtain rfl : publicPattern = a := hname.symm.trans hfront
  obtain rfl : "all|x:git".toList = b := (List.cons.inj (hlist.symm.trans hback)).2
  rw [hpattern, hallowed]
  decide +kernel

/-- Where every entry has one colon, a value the guard lets pass gives a go command that works
as documented no version control system that it does not have by default. An entry with two
colons escapes the guard: a go command that reads it allows Subversion for every public
module. -/
theorem govcs_guard {go : GoVcs} (hgo : go.Documented) :
    (∀ value rules, (∀ c ∈ value, isSpace c = Text.isSpace c) →
      (∀ item ∈ value.splitOn ',', item.count ':' ≤ 1) → cmdGovcs value = true →
      go.parse value = some rules → ∀ path isPrivate vcs, vcs ≠ "off".toList →
      go.allows rules path isPrivate vcs = true → go.allows [] path isPrivate vcs = true) ∧
    cmdGovcs twoColons = true ∧
      ∀ r rules, go.parse twoColons = some (r :: rules) → ∀ path,
        go.allows (r :: rules) path false "svn".toList = true ∧
          go.allows [] path false "svn".toList = false := by
  refine ⟨fun value rules hspace hcolon hguard hrules path isPrivate vcs hvcs hallows =>
    hgo.allows_default (hgo.rules_plain hspace hcolon hguard hrules) hvcs hallows,
    by decide +kernel, fun r rules hparse path => ⟨?_, ?_⟩⟩
  · have hone : twoColons.splitOn ',' = [twoColons] := by decide +kernel
    obtain ⟨item, hitem, hrule⟩ := hgo.parse hparse r List.mem_cons_self
    rw [hone, List.mem_singleton] at hitem
    rw [hitem] at hrule
    obtain ⟨hpattern, hallowed⟩ := entryRule_twoColons hrule
    rw [hgo.first, hpattern, hgo.publics, hallowed]
    exact .inr (by decide)
  · rw [Bool.eq_false_iff, ne_eq, hgo.default]
    decide

/-- One entry of a value. -/
def readEntry (item : Text) : Option VcsRule :=
  if ':' ∈ item.trimSpace then
    some ⟨Text.trimSpace (item.trimSpace.takeWhile (· ≠ ':')),
      ((Text.trimSpace (item.trimSpace.dropWhile (· ≠ ':')).tail).splitOn '|').map Text.trimSpace⟩
  else none

theorem entryRule_of_readEntry {item : Text} {r : VcsRule} (h : readEntry item = some r) :
    EntryRule item r := by
  unfold readEntry at h
  split_ifs at h with hcolon
  obtain rfl := Option.some.inj h
  obtain ⟨a, b, ht, ha⟩ := List.eq_append_cons_of_mem hcolon
  obtain ⟨hfront, hback⟩ := takeWhile_colon (b := b) ha
  rw [ht, hfront, hback]
  exact ⟨a, b, ha, ht, rfl, rfl⟩

def pathApplies (pattern path : Text) (isPrivate : Bool) : Bool :=
  if pattern = privatePattern then isPrivate
  else if pattern = publicPattern then !isPrivate
  else pattern = path

def pathAllows (path : Text) (isPrivate : Bool) (vcs : Text) : List VcsRule → Bool
  | [] => isPrivate || vcs = "git".toList || vcs = "hg".toList
  | r :: rules =>
    if pathApplies r.pattern path isPrivate then vcs ∈ r.allowed || "all".toList ∈ r.allowed
    else pathAllows path isPrivate vcs rules

/-- A go command whose other patterns are the paths of modules. -/
def pathGo : GoVcs where
  parse value := (value.splitOn ',').mapM readEntry
  applies := pathApplies
  allows rules path isPrivate vcs := pathAllows path isPrivate vcs rules

theorem exists_of_mem_mapM {α β : Type} {f : α → Option β} {as : List α} {bs : List β}
    (h : as.mapM f = some bs) {b : β} (hb : b ∈ bs) : ∃ a ∈ as, f a = some b := by
  induction as generalizing bs with
  | nil =>
    cases h
    exact absurd hb List.not_mem_nil
  | cons a as ih =>
    simp only [List.mapM_cons, Option.bind_eq_bind, Option.bind_eq_some_iff] at h
    obtain ⟨b', ha, bs', has, hbs⟩ := h
    cases hbs
    rcases List.mem_cons.mp hb with rfl | hb
    · exact ⟨a, List.mem_cons_self, ha⟩
    · obtain ⟨a', ha', hf⟩ := ih has hb
      exact ⟨a', List.mem_cons_of_mem a ha', hf⟩

theorem pathGo_documented : pathGo.Documented where
  parse hparse r hr := by
    obtain ⟨item, hitem, hrule⟩ := exists_of_mem_mapM hparse hr
    exact ⟨item, hitem, entryRule_of_readEntry hrule⟩
  privates _ _ := rfl
  publics _ _ := rfl
  first := by
    intro r rules path isPrivate vcs
    show pathAllows path isPrivate vcs (r :: rules) = true ↔
      if pathApplies r.pattern path isPrivate then _ else pathAllows path isPrivate vcs rules = true
    rw [pathAllows]
    split_ifs <;> simp
  default := by
    intro path isPrivate vcs
    simp [pathGo, pathAllows, or_assoc]

/-- A rule for private modules, and one for a module. -/
def plainValue : Text := "private:all, example.com/m:git|off".toList

theorem govcs_guard_pathGo :
    (∃ rules, pathGo.parse plainValue = some rules ∧
      ∀ path, pathGo.allows rules path false "svn".toList = false) ∧
    ∃ rules, pathGo.parse twoColons = some rules ∧
      ∀ path, pathGo.allows rules path false "svn".toList = true := by
  obtain ⟨hplain, -, hescape⟩ := govcs_guard pathGo_documented
  have hparse : pathGo.parse plainValue = some [⟨privatePattern, ["all".toList]⟩,
      ⟨"example.com/m".toList, ["git".toList, "off".toList]⟩] := by decide +kernel
  have hspace : plainValue.all (fun c => isSpace c == Text.isSpace c) = true := by decide +kernel
  have htwo : pathGo.parse twoColons = some [⟨publicPattern, ["all".toList, "x:git".toList]⟩] := by
    decide +kernel
  refine ⟨⟨_, hparse, fun path => ?_⟩, _, htwo, fun path => (hescape _ _ htwo path).1⟩
  by_contra hallows
  have hdefault := hplain plainValue _ (fun c hc => eq_of_beq (List.all_eq_true.mp hspace c hc))
    (by decide +kernel) (by decide +kernel) hparse path false "svn".toList (by decide)
    (by simpa using hallows)
  rw [pathGo_documented.default] at hdefault
  exact absurd hdefault (by decide)

end K3smApis.Deps
