import K3smApis.GoText
import Mathlib.Data.List.DropRight

/-!
# Slash-separated paths

Go's package `path` as it documents `Clean` and `Join`: a path is rooted or not and has
names, which are its elements without empty ones and ".", each ".." taken off with the name
before it. Two paths are compared by their form, not by their text.
-/
namespace K3smApis.SlashPath

def slash : UInt8 := 0x2f
def dot : GoString := [0x2e]
def dotDot : GoString := [0x2e, 0x2e]

/-- `strings.Split(p, "/")`. -/
def elements (p : GoString) : List GoString := p.splitOn slash

def joined (es : List GoString) : GoString := [slash].intercalate es

theorem joined_elements (p : GoString) : joined (elements p) = p := List.intercalate_splitOn slash

theorem elements_joined {es : List GoString} (h : ∀ e ∈ es, slash ∉ e) (hne : es ≠ []) :
    elements (joined es) = es := List.splitOn_intercalate slash h hne

theorem elements_ne_nil (p : GoString) : elements p ≠ [] := List.splitOn_ne_nil slash p

theorem elements_append (p q : GoString) :
    elements (p ++ slash :: q) = elements p ++ elements q := List.splitOn_append_cons_self p q

theorem elements_of_not_mem {p : GoString} (h : slash ∉ p) : elements p = [p] := by
  have hsingle : elements (joined [p]) = [p] := elements_joined (by simpa using h) (by simp)
  rwa [joined, List.intercalate_singleton] at hsingle

/-- An element has no slash in it, and there is one more element than there are slashes. -/
theorem elements_spec (p : GoString) :
    (∀ e ∈ elements p, slash ∉ e) ∧ (elements p).length = p.count slash + 1 := by
  -- cut off the text before the first slash
  induction hn : p.length using Nat.strongRecOn generalizing p with
  | ind n ih =>
    by_cases hmem : slash ∈ p
    · obtain ⟨a, b, rfl, ha⟩ := List.eq_append_cons_of_mem hmem
      obtain ⟨hb, hlen⟩ := ih b.length (by simp at hn; omega) b rfl
      rw [elements_append, elements_of_not_mem ha]
      refine ⟨?_, ?_⟩
      · simpa using ⟨ha, hb⟩
      · rw [List.length_append, hlen, List.count_append, List.count_cons_self,
          List.count_eq_zero_of_not_mem ha]
        simp
        omega
    · rw [elements_of_not_mem hmem, List.count_eq_zero_of_not_mem hmem]
      simpa using hmem

theorem joined_cons {e : GoString} {es : List GoString} (h : es ≠ []) :
    joined (e :: es) = e ++ slash :: joined es := by
  cases es with
  | nil => exact absurd rfl h
  | cons f es => simp [joined, List.intercalate_cons_cons]

theorem joined_append {es fs : List GoString} (he : es ≠ []) (hf : fs ≠ []) :
    joined (es ++ fs) = joined es ++ slash :: joined fs := by
  induction es with
  | nil => exact absurd rfl he
  | cons e es ih =>
    cases es with
    | nil => rw [List.singleton_append, joined_cons hf]; simp [joined]
    | cons f es =>
      have hne : f :: es ≠ [] := List.cons_ne_nil f es
      rw [List.cons_append, joined_cons (by simp), ih hne, joined_cons hne, List.append_assoc,
        List.cons_append]

theorem mem_joined {b : UInt8} {es : List GoString} (h : b ∈ joined es) :
    b = slash ∨ ∃ e ∈ es, b ∈ e := by
  induction es with
  | nil => simp [joined] at h
  | cons e es ih =>
    by_cases hes : es = []
    · subst hes
      exact .inr ⟨e, by simp, by simpa [joined] using h⟩
    · rw [joined_cons hes, List.mem_append, List.mem_cons] at h
      rcases h with h | rfl | h
      · exact .inr ⟨e, by simp, h⟩
      · exact .inl rfl
      · rcases ih h with rfl | ⟨f, hf, hb⟩
        · exact .inl rfl
        · exact .inr ⟨f, List.mem_cons_of_mem _ hf, hb⟩

theorem mem_joined_of_mem {b : UInt8} {e : GoString} {es : List GoString} (he : e ∈ es)
    (hb : b ∈ e) : b ∈ joined es := by
  induction es with
  | nil => exact absurd he List.not_mem_nil
  | cons f es ih =>
    by_cases hes : es = []
    · subst hes
      obtain rfl := List.mem_singleton.mp he
      simpa [joined] using hb
    · rw [joined_cons hes, List.mem_append, List.mem_cons]
      rcases List.mem_cons.mp he with rfl | he
      · exact .inl hb
      · exact .inr (.inr (ih he))

theorem length_joined {es : List GoString} (h : es ≠ []) :
    (joined es).length + 1 = (es.map (fun e => e.length + 1)).sum := by
  induction es with
  | nil => exact absurd rfl h
  | cons e es ih =>
    by_cases hes : es = []
    · subst hes
      simp [joined]
    · rw [joined_cons hes, List.map_cons, List.sum_cons, ← ih hes]
      simp
      omega

/-- A text that continues another with a slash has the other's elements first. -/
theorem elements_prefix_iff {a b : GoString} :
    (∃ rest, b = a ++ slash :: rest) ↔ elements a <+: elements b ∧ elements a ≠ elements b := by
  constructor
  · rintro ⟨rest, rfl⟩
    rw [elements_append]
    refine ⟨List.prefix_append _ _, fun h => elements_ne_nil rest ?_⟩
    exact List.self_eq_append_right.mp h
  · rintro ⟨⟨es, hes⟩, hne⟩
    have hes' : es ≠ [] := by
      rintro rfl
      exact hne (by rw [← hes, List.append_nil])
    refine ⟨joined es, ?_⟩
    rw [← joined_elements b, ← hes, joined_append (elements_ne_nil a) hes', joined_elements]

/-- A path: whether it starts at the root, and its names. -/
structure Form where
  rooted : Bool
  names : List GoString
  deriving DecidableEq, Repr

/-- One element after the names so far. -/
def step (rooted : Bool) (names : List GoString) (e : GoString) : List GoString :=
  if e = [] ∨ e = dot then names
  else if e = dotDot then
    match names.getLast? with
    | some n => if n = dotDot then names ++ [dotDot] else names.dropLast
    | none => if rooted then [] else [dotDot]
  else names ++ [e]

def isRooted (p : GoString) : Bool := p.head? = some slash

def form (p : GoString) : Form :=
  ⟨isRooted p, (elements p).foldl (step (isRooted p)) []⟩

def render : Form → GoString
  | ⟨true, names⟩ => slash :: joined names
  | ⟨false, []⟩ => dot
  | ⟨false, names⟩ => joined names

/-- `path.Clean`. -/
def clean (p : GoString) : GoString := render (form p)

/-- `path.Join`. -/
def join (elems : List GoString) : GoString :=
  if elems.all (fun e => e = []) then [] else clean (joined (elems.filter (fun e => e ≠ [])))

/-- A name that stands for itself. -/
structure IsName (n : GoString) : Prop where
  ne_nil : n ≠ []
  ne_dot : n ≠ dot
  ne_dotDot : n ≠ dotDot
  no_slash : slash ∉ n

theorem step_name {rooted : Bool} {names : List GoString} {n : GoString} (h : IsName n) :
    step rooted names n = names ++ [n] := by
  rw [step, if_neg (by simp [h.ne_nil, h.ne_dot]), if_neg h.ne_dotDot]

theorem foldl_step_names {rooted : Bool} {names ns : List GoString} (h : ∀ n ∈ ns, IsName n) :
    ns.foldl (step rooted) names = names ++ ns := by
  induction ns generalizing names with
  | nil => simp
  | cons n ns ih =>
    obtain ⟨hn, hns⟩ := List.forall_mem_cons.mp h
    rw [List.foldl_cons, step_name hn, ih hns, List.append_assoc, List.singleton_append]

/-- The form of a path with names under it. -/
theorem form_append_names {p : GoString} {ns : List GoString} (hp : p ≠ []) (hne : ns ≠ [])
    (hns : ∀ n ∈ ns, IsName n) :
    form (p ++ slash :: joined ns) = ⟨(form p).rooted, (form p).names ++ ns⟩ := by
  have hroot : isRooted (p ++ slash :: joined ns) = isRooted p := by
    cases p with
    | nil => exact absurd rfl hp
    | cons b p => rfl
  unfold form
  rw [hroot, elements_append, List.foldl_append,
    elements_joined (fun e he => (hns e he).no_slash) hne, foldl_step_names hns]

/-- Parents first, then names; a rooted path has no parents. -/
def Form.Normal (f : Form) : Prop :=
  ∃ k rest, f.names = List.replicate k dotDot ++ rest ∧ (∀ n ∈ rest, IsName n) ∧
    (f.rooted = true → k = 0)

theorem step_normal {rooted : Bool} {names : List GoString} {e : GoString} (he : slash ∉ e)
    (h : Form.Normal ⟨rooted, names⟩) : Form.Normal ⟨rooted, step rooted names e⟩ := by
  obtain ⟨k, rest, hnames, hrest, hroot⟩ := h
  dsimp only at hnames hroot
  subst hnames
  by_cases hskip : e = [] ∨ e = dot
  · rw [step, if_pos hskip]
    exact ⟨k, rest, rfl, hrest, hroot⟩
  by_cases hup : e = dotDot
  · rw [step, if_neg hskip, if_pos hup]
    rcases List.eq_nil_or_concat rest with rfl | ⟨init, n, rfl⟩
    · cases k with
      | zero =>
        cases rooted with
        | true => exact ⟨0, [], rfl, by simp, fun _ => rfl⟩
        | false => exact ⟨1, [], rfl, by simp, by simp⟩
      | succ k =>
        refine ⟨k + 2, [], ?_, by simp, fun h => absurd (hroot h) (by simp)⟩
        simp [List.getLast?_replicate, List.replicate_succ']
    · have hn : IsName n := hrest n (by simp)
      refine ⟨k, init, ?_, fun m hm => hrest m (by simp [hm]), hroot⟩
      rw [List.concat_eq_append, ← List.append_assoc, List.getLast?_concat]
      simp [hn.ne_dotDot]
  · have hname : IsName e := ⟨fun h => hskip (.inl h), fun h => hskip (.inr h), hup, he⟩
    rw [step_name hname, List.append_assoc]
    refine ⟨k, rest ++ [e], rfl, fun n hn => ?_, hroot⟩
    rcases List.mem_append.mp hn with hn | hn
    · exact hrest n hn
    · exact List.mem_singleton.mp hn ▸ hname

theorem foldl_step_normal {rooted : Bool} {names es : List GoString} (hes : ∀ e ∈ es, slash ∉ e)
    (h : Form.Normal ⟨rooted, names⟩) : Form.Normal ⟨rooted, es.foldl (step rooted) names⟩ := by
  induction es generalizing names with
  | nil => exact h
  | cons e es ih =>
    obtain ⟨he, hes⟩ := List.forall_mem_cons.mp hes
    exact ih hes (step_normal he h)

theorem form_normal (p : GoString) : (form p).Normal :=
  foldl_step_normal (elements_spec p).1 ⟨0, [], rfl, by simp, fun _ => rfl⟩

/-- Parents are kept where there is nothing to take off. -/
theorem foldl_step_parents (k : ℕ) (j : ℕ) :
    (List.replicate k dotDot).foldl (step false) (List.replicate j dotDot) =
      List.replicate (j + k) dotDot := by
  induction k generalizing j with
  | zero => rfl
  | succ k ih =>
    have hstep : step false (List.replicate j dotDot) dotDot = List.replicate (j + 1) dotDot := by
      cases j with
      | zero => rfl
      | succ j =>
        rw [step, if_neg (by decide), if_pos rfl, List.getLast?_replicate, if_neg (by simp)]
        exact List.replicate_succ'.symm
    rw [List.replicate_succ, List.foldl_cons, hstep, ih, Nat.add_right_comm, Nat.add_assoc]

theorem isRooted_joined {n : GoString} (ns : List GoString) (hne : n ≠ []) (hslash : slash ∉ n) :
    isRooted (joined (n :: ns)) = false := by
  have hhead : ∀ rest : GoString, isRooted (n ++ rest) = false := by
    intro rest
    cases n with
    | nil => exact absurd rfl hne
    | cons b n =>
      have hb : b ≠ slash := fun hb => hslash (hb ▸ List.mem_cons_self ..)
      simp [isRooted, hb]
  by_cases hns : ns = []
  · subst hns
    simpa [joined] using hhead []
  · rw [joined_cons hns]
    exact hhead _

/-- Paths that go on from the same names have a stem in common. -/
theorem render_append (rooted : Bool) (names : List GoString) :
    ∃ stem, ∀ ns ≠ [], render ⟨rooted, names ++ ns⟩ = stem ++ joined ns := by
  have hrender : ∀ ns ≠ [],
      render ⟨rooted, ns⟩ = (if rooted then [slash] else []) ++ joined ns := by
    intro ns hne
    cases rooted with
    | true => rfl
    | false =>
      cases ns with
      | nil => exact absurd rfl hne
      | cons n ns => rfl
  by_cases hnames : names = []
  · subst hnames
    exact ⟨_, fun ns hne => hrender ns hne⟩
  · refine ⟨(if rooted then [slash] else []) ++ joined names ++ [slash], fun ns hne => ?_⟩
    rw [hrender _ (by simp [hne]), joined_append hnames hne]
    simp only [List.append_assoc, List.singleton_append]

/-- A form in order is the form of its text. -/
theorem form_render {f : Form} (h : f.Normal) : form (render f) = f := by
  obtain ⟨rooted, names⟩ := f
  obtain ⟨k, rest, hnames, hrest, hroot⟩ := h
  dsimp only at hnames hroot
  have hdots : ∀ n ∈ names, n ≠ [] ∧ slash ∉ n := by
    intro n hn
    rw [hnames] at hn
    rcases List.mem_append.mp hn with hn | hn
    · rw [List.eq_of_mem_replicate hn]
      decide
    · exact ⟨(hrest n hn).ne_nil, (hrest n hn).no_slash⟩
  cases rooted with
  | true =>
    obtain rfl : k = 0 := hroot rfl
    have hnames' : names = rest := by simpa using hnames
    subst hnames'
    have hsplit : elements (slash :: joined names) = [] :: elements (joined names) :=
      elements_append [] (joined names)
    have hfold : (elements (joined names)).foldl (step true) [] = names := by
      by_cases hne : names = []
      · subst hne
        rfl
      · rw [elements_joined (fun e he => (hdots e he).2) hne, foldl_step_names hrest,
          List.nil_append]
    show form (slash :: joined names) = _
    unfold form
    rw [show isRooted (slash :: joined names) = true from rfl, hsplit, List.foldl_cons]
    exact congrArg _ hfold
  | false =>
    cases names with
    | nil => rfl
    | cons n ns =>
      have hroot : isRooted (joined (n :: ns)) = false :=
        isRooted_joined ns (hdots n (by simp)).1 (hdots n (by simp)).2
      show form (joined (n :: ns)) = _
      unfold form
      rw [hroot, elements_joined (fun e he => (hdots e he).2) (by simp)]
      congr 1
      have hfold := foldl_step_parents k 0
      rw [List.replicate_zero, Nat.zero_add] at hfold
      rw [hnames, List.foldl_append, hfold, foldl_step_names hrest]

/-- Cleaning keeps the form. -/
theorem form_clean (p : GoString) : form (clean p) = form p := form_render (form_normal p)

theorem clean_joined {ns : List GoString} (hne : ns ≠ []) (hns : ∀ n ∈ ns, IsName n) :
    clean (joined ns) = joined ns := by
  cases ns with
  | nil => exact absurd rfl hne
  | cons n ns =>
    have hroot := isRooted_joined ns (hns n (by simp)).ne_nil (hns n (by simp)).no_slash
    have hform : form (joined (n :: ns)) = ⟨false, n :: ns⟩ := by
      unfold form
      rw [hroot, elements_joined (fun e he => (hns e he).no_slash) hne, foldl_step_names hns,
        List.nil_append]
    rw [clean, hform]
    rfl

theorem clean_ne_nil (p : GoString) : clean p ≠ [] := by
  -- the empty text has the form of ".", which is not written as nothing
  intro h
  have hform := form_clean p
  rw [h] at hform
  have hdot : clean p = dot := by
    rw [clean, ← hform]
    rfl
  exact absurd (hdot.symm.trans h) (by decide)

/-- `q` is reached from `root` by at least one name. -/
def Below (root q : GoString) : Prop :=
  ∃ ns ≠ [], (∀ n ∈ ns, IsName n) ∧ form q = ⟨(form root).rooted, (form root).names ++ ns⟩

theorem joined_ne_nil {ns : List GoString} (hne : ns ≠ []) (hns : ∀ n ∈ ns, IsName n) :
    joined ns ≠ [] := by
  obtain ⟨n, ms, rfl⟩ := List.exists_cons_of_ne_nil hne
  obtain ⟨b, hb⟩ := List.exists_mem_of_ne_nil n (hns n (by simp)).ne_nil
  exact List.ne_nil_of_mem (mem_joined_of_mem (List.mem_cons_self ..) hb)

/-- Parts that are names one after the other are joined below the first part. -/
theorem form_join {root : GoString} {parts ns : List GoString} (hroot : root ≠ [])
    (hparts : ∀ e ∈ parts, e ≠ []) (hsome : parts ≠ []) (hsame : joined parts = joined ns)
    (hne : ns ≠ []) (hns : ∀ n ∈ ns, IsName n) :
    form (join (root :: parts)) = ⟨(form root).rooted, (form root).names ++ ns⟩ := by
  have hfilter : (root :: parts).filter (fun e => e ≠ []) = root :: parts := by
    rw [List.filter_eq_self]
    simpa using ⟨hroot, hparts⟩
  rw [join, if_neg (by simp [hroot]), form_clean, hfilter, joined_cons hsome, hsame,
    form_append_names hroot hne hns]

/-- `path.Join` cleans what it joins. -/
theorem join_eq_render (elems : List GoString) (h : ∃ e ∈ elems, e ≠ []) :
    join elems = render (form (join elems)) := by
  have hsome : ¬elems.all (fun e => e = []) = true := by simpa using h
  rw [join, if_neg hsome, form_clean, clean]

end K3smApis.SlashPath
