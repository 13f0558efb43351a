import K3smApis.AtomicProgram

/-!
# One writer, many readers

A system runs at most one writer at a time and any number of readers over shared
atomic words. Each step is one load or store, or a call boundary, and emits an
event; the writer may die at any step and a new one may be spawned. Readers never
store, so the writer's view of the memory is sequential: `Path.view` turns any run
into one where a call's stores are fixed when the call starts.
-/
namespace K3smApis.AtomicProgram

/-- A finite path of a labelled transition relation. -/
inductive Path {S E : Type} (T : S → E → S → Prop) (s : S) : List E → S → Prop where
  | nil : Path T s [] s
  | snoc {tr : List E} {s₁ s₂ : S} {e : E} :
      Path T s tr s₁ → T s₁ e s₂ → Path T s (tr ++ [e]) s₂

namespace Path

variable {S E : Type} {T : S → E → S → Prop} {s s₁ s₂ : S} {e : E} {tr pre post : List E}

theorem of_snoc (h : Path T s (tr ++ [e]) s₂) : ∃ s₁, Path T s tr s₁ ∧ T s₁ e s₂ := by
  generalize htr : tr ++ [e] = tr' at h
  cases h with
  | nil => simp at htr
  | snoc hp ht =>
    obtain ⟨rfl, rfl⟩ := List.append_inj' htr rfl |>.imp_right List.singleton_inj.mp
    exact ⟨_, hp, ht⟩

theorem of_nil (h : Path T s [] s₂) : s₂ = s := by
  generalize htr : ([] : List E) = tr at h
  cases h with
  | nil => rfl
  | snoc => simp at htr

/-- A path splits where its trace does. -/
theorem split (h : Path T s (pre ++ post) s₂) : ∃ s₁, Path T s pre s₁ ∧ Path T s₁ post s₂ := by
  induction post using List.reverseRecOn generalizing s₂ with
  | nil => exact ⟨s₂, by simpa using h, .nil⟩
  | append_singleton post e ih =>
    rw [← List.append_assoc] at h
    obtain ⟨s₃, hp, ht⟩ := of_snoc h
    obtain ⟨s₁, h₁, h₂⟩ := ih hp
    exact ⟨s₁, h₁, .snoc h₂ ht⟩

theorem append (h₁ : Path T s pre s₁) (h₂ : Path T s₁ post s₂) : Path T s (pre ++ post) s₂ := by
  induction h₂ with
  | nil => simpa using h₁
  | snoc _ ht ih =>
    rw [← List.append_assoc]
    exact .snoc ih ht

theorem of_cons (h : Path T s (e :: post) s₂) : ∃ s₁, T s e s₁ ∧ Path T s₁ post s₂ := by
  rw [← List.singleton_append] at h
  obtain ⟨s₁, h₁, h₂⟩ := split h
  rw [← List.nil_append [e]] at h₁
  obtain ⟨s₀, h₀, ht⟩ := of_snoc h₁
  cases of_nil h₀
  exact ⟨s₁, ht, h₂⟩

theorem cons (ht : T s e s₁) (h : Path T s₁ post s₂) : Path T s (e :: post) s₂ := by
  have hfirst : Path T s ([] ++ [e]) s₁ := .snoc .nil ht
  exact append hfirst h

/-- A property that holds at the end of a path and not at its start begins to hold at
some step. -/
theorem exists_change {P : S → Prop} (h : Path T s tr s₂) (h₀ : ¬P s) (h₂ : P s₂) :
    ∃ pre e t t', Path T s pre t ∧ T t e t' ∧ ¬P t ∧ P t' := by
  induction h with
  | nil => exact absurd h₂ h₀
  | @snoc tr s₁ s₂ e hp ht ih =>
    by_cases h₁ : P s₁
    · exact ih h₁
    · exact ⟨tr, e, s₁, s₂, hp, ht, h₁, h₂⟩

/-- A property one step preserves holds along a path. -/
theorem invariant {P : List E → S → Prop} (h : Path T s tr s₁) (h₀ : P [] s)
    (hstep : ∀ {tr s₁ e s₂}, P tr s₁ → T s₁ e s₂ → P (tr ++ [e]) s₂) : P tr s₁ := by
  induction h with
  | nil => exact h₀
  | snoc _ ht ih => exact hstep ih ht

/-- A relation that carries every step to a step carries paths to paths. -/
theorem simulate {S' : Type} {T' : S' → E → S' → Prop} {R : S → S' → Prop}
    (hsim : ∀ {s s' e s₁}, R s s' → T s e s₁ → ∃ s₁', T' s' e s₁' ∧ R s₁ s₁')
    {s' : S'} (hR : R s s') (h : Path T s tr s₁) : ∃ s₁', Path T' s' tr s₁' ∧ R s₁ s₁' := by
  induction h with
  | nil => exact ⟨s', .nil, hR⟩
  | snoc _ ht ih =>
    obtain ⟨s₁', hp, hR₁⟩ := ih
    obtain ⟨s₂', ht', hR₂⟩ := hsim hR₁ ht
    exact ⟨s₂', .snoc hp ht', hR₂⟩

end Path

variable {L V W C B R A : Type}

/-- The state a new writer starts with, and the program of each call and each read.
A call returns the writer's next state and an answer to its caller. -/
structure System (L V W C B R A : Type) where
  fresh : W
  call : C → W → Program L V (W × B)
  read : R → Program L V A

/-- The writer, between calls or inside one. -/
inductive Writer (L V W C B : Type) where
  | gone
  | idle (w : W)
  | busy (c : C) (p : Program L V (W × B))

/-- The shared words, the writer, and what each reader has left to do. -/
structure State (L V W C B R A : Type) where
  mem : Memory L V
  writer : Writer L V W C B
  reader : ℕ → Option (R × Program L V A)

/-- Before the first writer and the first read. -/
def State.start (m : Memory L V) : State L V W C B R A := ⟨m, .gone, fun _ => none⟩

/-- The state with reader `i` at `x`. -/
def State.reading (st : State L V W C B R A) (i : ℕ) (x : Option (R × Program L V A)) :
    State L V W C B R A :=
  { st with reader := Function.update st.reader i x }

@[simp] theorem State.reading_mem (st : State L V W C B R A) (i : ℕ)
    (x : Option (R × Program L V A)) : (st.reading i x).mem = st.mem := rfl

@[simp] theorem State.reading_reader (st : State L V W C B R A) (i : ℕ)
    (x : Option (R × Program L V A)) :
    (st.reading i x).reader = Function.update st.reader i x := rfl

@[simp] theorem State.reading_reading (st : State L V W C B R A) (i : ℕ)
    (x y : Option (R × Program L V A)) : (st.reading i x).reading i y = st.reading i y := by
  simp [State.reading]

theorem State.reading_self {st : State L V W C B R A} {i : ℕ} {x : Option (R × Program L V A)}
    (h : st.reader i = x) : st.reading i x = st := by
  subst h
  simp [State.reading]

/-- What a step does, as an observer of the whole system sees it. -/
inductive Event (L V C B R A : Type) where
  | spawn
  | die
  | call (c : C)
  | load (c : C) (l : L)
  | store (c : C) (l : L) (v : V)
  | ret (c : C) (b : B)
  | start (i : ℕ) (r : R)
  | read (i : ℕ) (l : L) (v : V)
  | finish (i : ℕ) (r : R) (a : A)
  deriving DecidableEq, Repr

/-- Which thread moves next. -/
inductive Action (C R : Type) where
  | spawn
  | die
  | call (c : C)
  | write
  | start (i : ℕ) (r : R)
  | read (i : ℕ)
  deriving DecidableEq, Repr

variable [DecidableEq L]

/-- One step, or none when the thread cannot move. -/
def System.step (sys : System L V W C B R A) (st : State L V W C B R A) :
    Action C R → Option (Event L V C B R A × State L V W C B R A)
  | .spawn =>
    match st.writer with
    | .gone => some (.spawn, { st with writer := .idle sys.fresh })
    | _ => none
  | .die => some (.die, { st with writer := .gone })
  | .call c =>
    match st.writer with
    | .idle w => some (.call c, { st with writer := .busy c (sys.call c w) })
    | _ => none
  | .write =>
    match st.writer with
    | .busy c (.done (w, b)) => some (.ret c b, { st with writer := .idle w })
    | .busy c (.load l next) =>
      some (.load c l, { st with writer := .busy c (next (st.mem l)) })
    | .busy c (.store l v next) =>
      some (.store c l v,
        { st with mem := Function.update st.mem l v, writer := .busy c next })
    | _ => none
  | .start i r =>
    match st.reader i with
    | none =>
      some (.start i r, st.reading i (some (r, sys.read r)))
    | some _ => none
  | .read i =>
    match st.reader i with
    | some (r, .done a) =>
      some (.finish i r a, st.reading i none)
    | some (r, .load l next) =>
      some (.read i l (st.mem l),
        st.reading i (some (r, next (st.mem l))))
    | _ => none

/-- Some thread moves. -/
def System.Step (sys : System L V W C B R A) (st : State L V W C B R A)
    (e : Event L V C B R A) (st' : State L V W C B R A) : Prop :=
  ∃ a, sys.step st a = some (e, st')

/-- Everything a step can do, with its guard. -/
inductive System.Moves (sys : System L V W C B R A) (st : State L V W C B R A) :
    Event L V C B R A → State L V W C B R A → Prop where
  | spawn : st.writer = .gone → Moves sys st .spawn { st with writer := .idle sys.fresh }
  | die : Moves sys st .die { st with writer := .gone }
  | call {c w} : st.writer = .idle w →
      Moves sys st (.call c) { st with writer := .busy c (sys.call c w) }
  | load {c l next} : st.writer = .busy c (.load l next) →
      Moves sys st (.load c l) { st with writer := .busy c (next (st.mem l)) }
  | store {c l v next} : st.writer = .busy c (.store l v next) →
      Moves sys st (.store c l v)
        { st with mem := Function.update st.mem l v, writer := .busy c next }
  | ret {c w b} : st.writer = .busy c (.done (w, b)) →
      Moves sys st (.ret c b) { st with writer := .idle w }
  | start {i r} : st.reader i = none → Moves sys st (.start i r)
      (st.reading i (some (r, sys.read r)))
  | read {i r l next} : st.reader i = some (r, .load l next) →
      Moves sys st (.read i l (st.mem l))
        (st.reading i (some (r, next (st.mem l))))
  | finish {i r a} : st.reader i = some (r, .done a) →
      Moves sys st (.finish i r a) (st.reading i none)

theorem System.Step.moves {sys : System L V W C B R A} {st st' : State L V W C B R A}
    {e : Event L V C B R A} (h : sys.Step st e st') : sys.Moves st e st' := by
  obtain ⟨a, ha⟩ := h
  cases a with
  | die =>
    simp only [System.step, Option.some.injEq, Prod.mk.injEq] at ha
    obtain ⟨rfl, rfl⟩ := ha
    exact .die
  | spawn | call _ | write | start _ _ | read _ =>
    simp only [System.step] at ha
    split at ha <;> simp only [Option.some.injEq, Prod.mk.injEq, reduceCtorEq] at ha
    all_goals obtain ⟨rfl, rfl⟩ := ha
    all_goals first
      | exact .spawn ‹_› | exact .call ‹_› | exact .ret ‹_› | exact .load ‹_›
      | exact .store ‹_› | exact .start ‹_› | exact .finish ‹_› | exact .read ‹_›

/-- A run of the system from memory `m`. -/
abbrev System.Run (sys : System L V W C B R A) (m : Memory L V)
    (tr : List (Event L V C B R A)) (st : State L V W C B R A) : Prop :=
  Path sys.Step (.start m) tr st

/-- The writer as its own stores show it: a call is known by the writer state and the
memory it started from, the stores it has made and those it has left. -/
inductive View (L V W C : Type) where
  | gone
  | idle (w : W)
  | busy (c : C) (w : W) (m : Memory L V) (past rest : List (L × V))

/-- The steps of the view. The readers' steps leave it as it is, and a read returns
what the memory holds. -/
inductive System.ViewStep (sys : System L V W C B R A) :
    Memory L V × View L V W C → Event L V C B R A → Memory L V × View L V W C → Prop where
  | spawn {m} : ViewStep sys (m, .gone) .spawn (m, .idle sys.fresh)
  | die {m view} : ViewStep sys (m, view) .die (m, .gone)
  | call {m c w} :
      ViewStep sys (m, .idle w) (.call c) (m, .busy c w m [] ((sys.call c w).stores m))
  | load {m c w m₀ past rest l} :
      ViewStep sys (m, .busy c w m₀ past rest) (.load c l) (m, .busy c w m₀ past rest)
  | store {m c w m₀ past rest l v} :
      ViewStep sys (m, .busy c w m₀ past ((l, v) :: rest)) (.store c l v)
        (Function.update m l v, .busy c w m₀ (past ++ [(l, v)]) rest)
  | ret {m c w m₀ past} :
      ViewStep sys (m, .busy c w m₀ past []) (.ret c ((sys.call c w).result m₀).2)
        (m, .idle ((sys.call c w).result m₀).1)
  | start {m view i r} : ViewStep sys (m, view) (.start i r) (m, view)
  | read {m view i l} : ViewStep sys (m, view) (.read i l (m l)) (m, view)
  | finish {m view i r a} : ViewStep sys (m, view) (.finish i r a) (m, view)

/-- A read returns what the memory holds and changes nothing. -/
theorem System.ViewStep.of_read {sys : System L V W C B R A} {x x' : Memory L V × View L V W C}
    {i : ℕ} {l : L} {v : V} (h : sys.ViewStep x (.read i l v) x') : x' = x ∧ v = x.1 l := by
  generalize he : (.read i l v : Event L V C B R A) = e at h
  cases h with
  | read =>
    obtain ⟨-, rfl, rfl⟩ := Event.read.inj he
    exact ⟨rfl, rfl⟩
  | spawn | die | call | load | store | ret | start | finish => simp at he

/-- A return ends a call that has no stores left. -/
theorem System.ViewStep.of_ret {sys : System L V W C B R A} {x x' : Memory L V × View L V W C}
    {c : C} {b : B} (h : sys.ViewStep x (.ret c b) x') :
    ∃ w m past, x.2 = .busy c w m past [] ∧ b = ((sys.call c w).result m).2 ∧
      x' = (x.1, .idle ((sys.call c w).result m).1) := by
  generalize he : (.ret c b : Event L V C B R A) = e at h
  cases h with
  | ret =>
    obtain ⟨rfl, rfl⟩ := Event.ret.inj he
    exact ⟨_, _, _, rfl, rfl, rfl⟩
  | spawn | die | call | load | store | start | read | finish => simp at he

/-- The view of a state: what a busy writer has left to store, and the state it will
return with, are those of its call run alone. -/
def System.Viewed (sys : System L V W C B R A) (st : State L V W C B R A)
    (x : Memory L V × View L V W C) : Prop :=
  st.mem = x.1 ∧
    match st.writer, x.2 with
    | .gone, .gone => True
    | .idle w, .idle w' => w = w'
    | .busy c p, .busy c' w m _ rest =>
      c = c' ∧ p.stores st.mem = rest ∧ p.result st.mem = (sys.call c' w).result m
    | _, _ => False

namespace System

variable {sys : System L V W C B R A} {st st' : State L V W C B R A}
  {x : Memory L V × View L V W C} {e : Event L V C B R A}

/-- Every step of the system is a step of the view. -/
theorem Viewed.step (hv : sys.Viewed st x) (h : sys.Step st e st') :
    ∃ x', sys.ViewStep x e x' ∧ sys.Viewed st' x' := by
  obtain ⟨m, view⟩ := x
  obtain ⟨rfl, hw⟩ := hv
  cases h.moves with
  | spawn hgone =>
    cases view <;> simp only [hgone] at hw
    exact ⟨_, .spawn, rfl, rfl⟩
  | die => exact ⟨_, .die, rfl, trivial⟩
  | call hidle =>
    cases view <;> simp only [hidle] at hw
    subst hw
    exact ⟨_, .call, rfl, rfl, rfl, rfl⟩
  | load hbusy =>
    cases view <;> simp only [hbusy] at hw
    obtain ⟨rfl, rfl, hr⟩ := hw
    exact ⟨_, .load, rfl, rfl, rfl, hr⟩
  | store hbusy =>
    cases view <;> simp only [hbusy] at hw
    obtain ⟨rfl, rfl, hr⟩ := hw
    exact ⟨_, .store, rfl, rfl, rfl, hr⟩
  | ret hbusy =>
    cases view <;> simp only [hbusy] at hw
    obtain ⟨rfl, rfl, hr⟩ := hw
    have hstate := congrArg Prod.fst hr
    have hanswer := congrArg Prod.snd hr
    dsimp only [Program.result] at hstate hanswer
    rw [hanswer]
    exact ⟨_, .ret, rfl, hstate⟩
  | start => exact ⟨_, .start, rfl, hw⟩
  | read => exact ⟨_, .read, rfl, hw⟩
  | finish => exact ⟨_, .finish, rfl, hw⟩

theorem Viewed.idle {w : W} (hv : sys.Viewed st x) (h : st.writer = .idle w) : x.2 = .idle w := by
  obtain ⟨m, view⟩ := x
  obtain ⟨-, hw⟩ := hv
  cases view <;> simp only [h] at hw
  rw [hw]

theorem Viewed.path {tr : List (Event L V C B R A)} (hv : sys.Viewed st x)
    (h : Path sys.Step st tr st') : ∃ x', Path sys.ViewStep x tr x' ∧ sys.Viewed st' x' :=
  Path.simulate (T := sys.Step) (R := sys.Viewed) Viewed.step hv h

/-- Every run has a view. -/
theorem Run.view {m : Memory L V} {tr : List (Event L V C B R A)} (h : sys.Run m tr st) :
    ∃ x, Path sys.ViewStep (m, .gone) tr x ∧ sys.Viewed st x := by
  have hstart : sys.Viewed (.start m) (m, .gone) := ⟨rfl, trivial⟩
  exact hstart.path h

/-- A busy view is a point of its call: the stores made and left are those of the
call, and the memory is the one it started from with the stores made. -/
def WellFormed (sys : System L V W C B R A) (x : Memory L V × View L V W C) : Prop :=
  match x.2 with
  | .busy c w m past rest =>
    past ++ rest = (sys.call c w).stores m ∧ x.1 = applyStores m past
  | _ => True

theorem WellFormed.step {x' : Memory L V × View L V W C} (hx : sys.WellFormed x)
    (h : sys.ViewStep x e x') : sys.WellFormed x' := by
  cases h with
  | spawn | die | ret => trivial
  | call => exact ⟨rfl, rfl⟩
  | store =>
    obtain ⟨hsplit, hmem⟩ := hx
    dsimp only at hsplit hmem
    refine ⟨?_, ?_⟩
    · rw [← hsplit]
      simp
    · rw [applyStores_append, ← hmem]
      rfl
  | load | start | read | finish => exact hx

theorem WellFormed.path {x' : Memory L V × View L V W C} {tr : List (Event L V C B R A)}
    (hx : sys.WellFormed x) (h : Path sys.ViewStep x tr x') : sys.WellFormed x' :=
  h.invariant (P := fun _ x => sys.WellFormed x) hx WellFormed.step

theorem wellFormed_gone {m : Memory L V} : sys.WellFormed (m, .gone) := trivial

end System

/-- The loads of reader `i` in a trace. -/
def readsOf (i : ℕ) (tr : List (Event L V C B R A)) : List (L × V) :=
  tr.filterMap fun
    | .read j l v => if j = i then some (l, v) else none
    | _ => none

omit [DecidableEq L] in
@[simp] theorem readsOf_append (i : ℕ) (tr tr' : List (Event L V C B R A)) :
    readsOf i (tr ++ tr') = readsOf i tr ++ readsOf i tr' :=
  List.filterMap_append

omit [DecidableEq L] in
theorem mem_readsOf {i : ℕ} {tr : List (Event L V C B R A)} {l : L} {v : V} :
    (l, v) ∈ readsOf i tr ↔ .read i l v ∈ tr := by
  rw [readsOf, List.mem_filterMap]
  constructor
  · rintro ⟨e, he, heq⟩
    cases e with
    | read j l' v' =>
      simp only [Option.ite_none_right_eq_some, Option.some.injEq, Prod.mk.injEq] at heq
      obtain ⟨rfl, rfl, rfl⟩ := heq
      exact he
    | spawn | die | call _ | load _ _ | store _ _ _ | ret _ _ | start _ _ | finish _ _ _ =>
      simp at heq
  · intro h
    exact ⟨_, h, by simp⟩

omit [DecidableEq L] in
/-- A trace splits at every load of reader `i`. -/
theorem readsOf_split {i : ℕ} {tr : List (Event L V C B R A)} {rs rs' : List (L × V)} {l : L}
    {v : V} (h : readsOf i tr = rs ++ (l, v) :: rs') :
    ∃ pre post, tr = pre ++ .read i l v :: post ∧ readsOf i pre = rs ∧ readsOf i post = rs' := by
  obtain ⟨pre, rest, rfl, hpre, hrest⟩ := List.filterMap_eq_append_iff.mp h
  obtain ⟨gap, e, post, rfl, hgap, he, hpost⟩ := List.filterMap_eq_cons_iff.mp hrest
  refine ⟨pre ++ gap, post, ?_, ?_, hpost⟩
  · cases e with
    | read j l' v' =>
      obtain ⟨rfl, hlv⟩ : j = i ∧ (l', v') = (l, v) := by simpa using he
      obtain ⟨rfl, rfl⟩ := Prod.mk.inj hlv
      simp
    | spawn | die | call _ | load _ _ | store _ _ _ | ret _ _ | start _ _ | finish _ _ _ =>
      simp at he
  · rw [readsOf_append, readsOf, hpre, readsOf, List.filterMap_eq_nil_iff.mpr hgap,
      List.append_nil]

/-- Reader `i` is not done with its read anywhere in the trace. -/
def NoFinish (i : ℕ) (tr : List (Event L V C B R A)) : Prop := ∀ r a, .finish i r a ∉ tr

namespace System

variable {sys : System L V W C B R A} {st st' : State L V W C B R A}
  {tr pre mid post : List (Event L V C B R A)} {i : ℕ} {r r' : R} {a : A}

/-- What a step does to a read in progress: its next load, its end, or nothing. -/
theorem reader_cases {p : Program L V A} {e : Event L V C B R A} (h : sys.Step st e st')
    (hp : st.reader i = some (r, p)) :
    (∃ l next, p = .load l next ∧ e = .read i l (st.mem l) ∧
      st'.reader i = some (r, next (st.mem l))) ∨
    (∃ a, p = .done a ∧ e = .finish i r a ∧ st'.reader i = none) ∨
    (st'.reader i = some (r, p) ∧ readsOf i [e] = [] ∧ ∀ r a, e ≠ .finish i r a) := by
  cases h.moves with
  | @start j q hj =>
    have hne : i ≠ j := by
      rintro rfl
      simp [hj] at hp
    exact .inr (.inr ⟨by simp [Function.update_of_ne hne, hp], rfl, by simp⟩)
  | @read j q l next hj =>
    by_cases hij : i = j
    · subst hij
      obtain ⟨rfl, rfl⟩ : r = q ∧ p = .load l next := by simpa [hp] using hj
      exact .inl ⟨l, next, rfl, rfl, by simp⟩
    · exact .inr (.inr ⟨by simp [Function.update_of_ne hij, hp],
        by simp [readsOf, Ne.symm hij], by simp⟩)
  | @finish j q a hj =>
    by_cases hij : i = j
    · subst hij
      obtain ⟨rfl, rfl⟩ : r = q ∧ p = .done a := by simpa [hp] using hj
      exact .inr (.inl ⟨a, rfl, rfl, by simp⟩)
    · exact .inr (.inr ⟨by simp [Function.update_of_ne hij, hp], rfl, by simp [Ne.symm hij]⟩)
  | spawn | die | call | load | store | ret => exact .inr (.inr ⟨hp, rfl, by simp⟩)

/-- A read in progress stays one until it finishes, and its loads so far are those the
trace shows. -/
theorem reading_path {p : Program L V A} (h : Path sys.Step st tr st')
    (hp : st.reader i = some (r, p)) (hno : NoFinish i tr) :
    ∃ p', st'.reader i = some (r, p') ∧
      ∀ rs a, Reads p' rs a → Reads p (readsOf i tr ++ rs) a := by
  induction h with
  | nil => exact ⟨p, hp, fun _ _ h => h⟩
  | @snoc tr s₁ s₂ e _ ht ih =>
    obtain ⟨p', hp', hreads⟩ := ih (fun r a hm => hno r a (List.mem_append_left _ hm))
    rcases reader_cases ht hp' with ⟨l, next, rfl, rfl, hnext⟩ | ⟨a, -, rfl, -⟩ | ⟨hsame, hnil, -⟩
    · refine ⟨_, hnext, fun rs a hrs => ?_⟩
      have hload := hreads _ a (.load (v := s₁.mem l) hrs)
      simpa [readsOf] using hload
    · exact absurd (by simp) (hno r a)
    · refine ⟨p', hsame, fun rs a hrs => ?_⟩
      rw [readsOf_append, hnil, List.append_nil]
      exact hreads rs a hrs

/-- The loads between a read's start and its end make it return what it returned. -/
theorem Run.reads {m : Memory L V}
    (h : sys.Run m (pre ++ .start i r :: mid ++ .finish i r' a :: post) st)
    (hno : NoFinish i mid) : r' = r ∧ Reads (sys.read r) (readsOf i mid) a := by
  obtain ⟨s₁, h₁, h₂⟩ := Path.split h
  obtain ⟨s₀, h₀, hmid⟩ := Path.split h₁
  obtain ⟨s₃, hstart, hmid⟩ := Path.of_cons hmid
  obtain ⟨s₄, hfinish, -⟩ := Path.of_cons h₂
  have hbegun : s₃.reader i = some (r, sys.read r) := by
    cases hstart.moves with
    | start => simp
  obtain ⟨p', hp', hreads⟩ := reading_path hmid hbegun hno
  rcases reader_cases hfinish hp' with ⟨l, next, -, he, -⟩ | ⟨b, rfl, he, -⟩ | ⟨-, -, hne⟩
  · simp at he
  · obtain ⟨-, rfl, rfl⟩ := Event.finish.inj he
    exact ⟨rfl, by simpa using hreads [] a (.done a)⟩
  · exact absurd rfl (hne r' a)

end System

/-- The stores of a trace. -/
def storesOf (tr : List (Event L V C B R A)) : List (L × V) :=
  tr.filterMap fun
    | .store _ l v => some (l, v)
    | _ => none

/-- The calls of a trace. -/
def callsOf (tr : List (Event L V C B R A)) : List C :=
  tr.filterMap fun
    | .call c => some c
    | _ => none

omit [DecidableEq L] in
theorem storesOf_append (tr tr' : List (Event L V C B R A)) :
    storesOf (tr ++ tr') = storesOf tr ++ storesOf tr' :=
  List.filterMap_append

omit [DecidableEq L] in
theorem callsOf_append (tr tr' : List (Event L V C B R A)) :
    callsOf (tr ++ tr') = callsOf tr ++ callsOf tr' :=
  List.filterMap_append

namespace System

variable {sys : System L V W C B R A} {m : Memory L V} {tr : List (Event L V C B R A)}
  {x : Memory L V × View L V W C}

theorem storesOf_step {e : Event L V C B R A} {x' : Memory L V × View L V W C}
    (h : x.1 = applyStores m (storesOf tr)) (hs : sys.ViewStep x e x') :
    x'.1 = applyStores m (storesOf (tr ++ [e])) := by
  rw [storesOf_append, applyStores_append, ← h]
  cases hs with
  | spawn | die | call | load | store | ret | start | read | finish => rfl

/-- The memory is the first one with the stores of the trace. -/
theorem mem_eq_storesOf (h : Path sys.ViewStep (m, .gone) tr x) :
    x.1 = applyStores m (storesOf tr) :=
  h.invariant (P := fun tr x => x.1 = applyStores m (storesOf tr)) rfl storesOf_step

/-- A load returns what the stores before it left. -/
theorem Run.load_eq {st : State L V W C B R A} {post : List (Event L V C B R A)} {i : ℕ} {l : L}
    {v : V} (h : sys.Run m (tr ++ .read i l v :: post) st) : v = applyStores m (storesOf tr) l := by
  obtain ⟨x₂, hview, -⟩ := h.view
  obtain ⟨x, hx, hrest⟩ := Path.split hview
  obtain ⟨x₁, hread, -⟩ := Path.of_cons hrest
  rw [hread.of_read.2, mem_eq_storesOf hx]

/-- Where a trace with one call stands: before the call, inside it, or after it. -/
structure OneCall (sys : System L V W C B R A) (c : C) (m : Memory L V)
    (tr : List (Event L V C B R A)) (x : Memory L V × View L V W C) : Prop where
  wellFormed : sys.WellFormed x
  mem : x.1 = applyStores m (storesOf tr)
  before : callsOf tr = [] → storesOf tr = [] ∧ (x.2 = .gone ∨ x.2 = .idle sys.fresh)
  inside : callsOf tr = [c] → storesOf tr <+: (sys.call c sys.fresh).stores m ∧
    ∀ c' w m' past rest, x.2 = .busy c' w m' past rest →
      c' = c ∧ w = sys.fresh ∧ m' = m ∧ past = storesOf tr

/-- Events that are neither calls nor stores. -/
theorem OneCall.silent {c : C} {e : Event L V C B R A} {x' : Memory L V × View L V W C}
    (h : OneCall sys c m tr x) (hs : sys.ViewStep x e x') (hcalls : callsOf [e] = [])
    (hstores : storesOf [e] = [])
    (hidle : x.2 = .gone ∨ x.2 = .idle sys.fresh → x'.2 = .gone ∨ x'.2 = .idle sys.fresh)
    (hbusy : ∀ c w m past rest, x'.2 = .busy c w m past rest → x.2 = .busy c w m past rest) :
    OneCall sys c m (tr ++ [e]) x' := by
  refine ⟨h.wellFormed.step hs, storesOf_step h.mem hs, ?_, ?_⟩
  · rw [callsOf_append, storesOf_append, hcalls, hstores, List.append_nil, List.append_nil]
    exact fun hc => (h.before hc).imp_right hidle
  · rw [callsOf_append, storesOf_append, hcalls, hstores, List.append_nil, List.append_nil]
    exact fun hc => (h.inside hc).imp_right fun hpast c' w m' past rest hx =>
      hpast c' w m' past rest (hbusy c' w m' past rest hx)

theorem OneCall.step {c : C} {e : Event L V C B R A} {x' : Memory L V × View L V W C}
    (h : OneCall sys c m tr x) (hs : sys.ViewStep x e x') :
    OneCall sys c m (tr ++ [e]) x' := by
  have hwf := h.wellFormed
  have hmem := h.mem
  have hwf' := hwf.step hs
  have hmem' := storesOf_step hmem hs
  cases hs with
  | spawn => exact h.silent .spawn rfl rfl (fun _ => .inr rfl) (by simp)
  | die => exact h.silent .die rfl rfl (fun _ => .inl rfl) (by simp)
  | ret => exact h.silent .ret rfl rfl (by simp) (by simp)
  | load => exact h.silent .load rfl rfl (fun hx => hx) (fun _ _ _ _ _ hx => hx)
  | start => exact h.silent .start rfl rfl (fun hx => hx) (fun _ _ _ _ _ hx => hx)
  | read => exact h.silent .read rfl rfl (fun hx => hx) (fun _ _ _ _ _ hx => hx)
  | finish => exact h.silent .finish rfl rfl (fun hx => hx) (fun _ _ _ _ _ hx => hx)
  | @call m' c' w =>
    refine ⟨hwf', hmem', fun hc => ?_, fun hc => ?_⟩
    · simp [callsOf] at hc
    · have hlast : callsOf tr ++ [c'] = [] ++ [c] := by
        rw [callsOf_append] at hc
        exact hc
      obtain ⟨hnone, hsame⟩ := List.append_inj' hlast rfl
      obtain rfl : c' = c := List.singleton_inj.mp hsame
      obtain ⟨hstores, hidle⟩ := h.before hnone
      obtain rfl : w = sys.fresh := by simpa using hidle
      obtain rfl : m' = m := by
        rw [hstores] at hmem
        exact hmem
      rw [storesOf_append, hstores]
      refine ⟨List.nil_prefix, ?_⟩
      rintro c w m past rest hx
      obtain ⟨rfl, rfl, rfl, rfl, -⟩ := View.busy.inj hx
      exact ⟨rfl, rfl, rfl, rfl⟩
  | @store m' c' w m₀ past rest l v =>
    refine ⟨hwf', hmem', fun hc => ?_, fun hc => ?_⟩
    · rw [callsOf_append] at hc
      have hidle := (h.before (List.append_eq_nil_iff.mp hc).1).2
      simp at hidle
    · rw [callsOf_append] at hc
      obtain ⟨-, hpast⟩ := h.inside (by simpa [callsOf] using hc)
      obtain ⟨rfl, rfl, rfl, rfl⟩ := hpast _ _ _ _ _ rfl
      rw [storesOf_append]
      refine ⟨⟨rest, ?_⟩, ?_⟩
      · rw [← hwf.1]
        simp [storesOf]
      · rintro c w m past' rest' hx
        obtain ⟨rfl, rfl, rfl, rfl, -⟩ := View.busy.inj hx
        exact ⟨rfl, rfl, rfl, rfl⟩

/-- In a trace with one call the stores are the first ones of that call. -/
theorem storesOf_prefix {c : C} (h : Path sys.ViewStep (m, .gone) tr x) (hc : callsOf tr = [c]) :
    storesOf tr <+: (sys.call c sys.fresh).stores m := by
  have hone : OneCall sys c m tr x :=
    h.invariant (P := OneCall sys c m)
      ⟨trivial, rfl, fun _ => ⟨rfl, .inl rfl⟩, by simp [callsOf]⟩ OneCall.step
  exact (hone.inside hc).1

end System

namespace Program

/-- The events of a call of the writer from memory `m`. -/
def callEvents (c : C) : Program L V (W × B) → Memory L V → List (Event L V C B R A)
  | .done a, _ => [.ret c a.2]
  | .load l next, m => .load c l :: (next (m l)).callEvents c m
  | .store l v next, m => .store c l v :: next.callEvents c (Function.update m l v)

/-- The events of the loads of reader `i` from memory `m`. -/
def loadEvents {α : Type} (i : ℕ) : Program L V α → Memory L V → List (Event L V C B R A)
  | .done _, _ => []
  | .load l next, m => .read i l (m l) :: (next (m l)).loadEvents i m
  | .store _ _ _, _ => []

omit [DecidableEq L] in
@[simp] theorem loadEvents_pure {α : Type} (i : ℕ) (a : α) (m : Memory L V) :
    (pure a : Program L V α).loadEvents i m = ([] : List (Event L V C B R A)) := rfl

omit [DecidableEq L] in
@[simp] theorem loadEvents_get (i : ℕ) (l : L) (m : Memory L V) :
    (get l : Program L V V).loadEvents i m =
      ([.read i l (m l)] : List (Event L V C B R A)) := rfl

theorem loadEvents_bind {α β : Type} (i : ℕ) {p : Program L V α} {m : Memory L V}
    (hp : p.stores m = []) (f : α → Program L V β) :
    (p >>= f).loadEvents i m =
      (p.loadEvents i m ++ (f (p.result m)).loadEvents i m : List (Event L V C B R A)) := by
  induction p with
  | done a => rfl
  | load l next ih => exact congrArg (.read i l (m l) :: ·) (ih _ hp)
  | store l v next ih => simp [stores] at hp

@[simp] theorem loadEvents_loadAll (i : ℕ) (ls : List L) (m : Memory L V) :
    (loadAll ls : Program L V (List V)).loadEvents i m =
      (ls.map (fun l => .read i l (m l)) : List (Event L V C B R A)) := by
  induction ls with
  | nil => rfl
  | cons l ls ih =>
    have h := loadEvents_bind (C := C) (B := B) (R := R) (A := A) i (stores_loadAll ls m)
      (fun vs => (pure (m l :: vs) : Program L V (List V)))
    rw [ih, loadEvents_pure, List.append_nil] at h
    exact congrArg (.read i l (m l) :: ·) h

omit [DecidableEq L] in
theorem noFinish_loadEvents {α : Type} (i j : ℕ) (p : Program L V α) (m : Memory L V) :
    NoFinish i (p.loadEvents j m : List (Event L V C B R A)) := by
  intro r a
  induction p with
  | done b => simp [loadEvents]
  | load l next ih => simp [loadEvents, ih]
  | store l v next ih => simp [loadEvents]

omit [DecidableEq L] in
theorem callsOf_loadEvents {α : Type} (i : ℕ) (p : Program L V α) (m : Memory L V) :
    callsOf (p.loadEvents i m : List (Event L V C B R A)) = [] := by
  induction p with
  | done b => rfl
  | load l next ih => exact ih _
  | store l v next ih => rfl

theorem callsOf_callEvents (c : C) (p : Program L V (W × B)) (m : Memory L V) :
    callsOf (p.callEvents c m : List (Event L V C B R A)) = [] := by
  induction p generalizing m with
  | done b => rfl
  | load l next ih => exact ih _ _
  | store l v next ih => exact ih _

/-- No read ends during the events of a call. -/
theorem noFinish_callEvents (i : ℕ) (c : C) (p : Program L V (W × B)) (m : Memory L V) :
    NoFinish i (p.callEvents c m : List (Event L V C B R A)) := by
  intro r a
  induction p generalizing m with
  | done b => simp [callEvents]
  | load l next ih => simp [callEvents, ih]
  | store l v next ih => simp [callEvents, ih]

/-- The events of a call end with its return. -/
theorem callEvents_eq_concat (c : C) (p : Program L V (W × B)) (m : Memory L V) :
    ∃ init : List (Event L V C B R A), p.callEvents c m = init ++ [.ret c (p.result m).2] := by
  induction p generalizing m with
  | done b => exact ⟨[], rfl⟩
  | load l next ih =>
    obtain ⟨init, hinit⟩ := ih (m l) m
    refine ⟨.load c l :: init, ?_⟩
    rw [callEvents, hinit]
    rfl
  | store l v next ih =>
    obtain ⟨init, hinit⟩ := ih (Function.update m l v)
    refine ⟨.store c l v :: init, ?_⟩
    rw [callEvents, hinit]
    rfl

theorem store_mem_callEvents {c : C} {p : Program L V (W × B)} {m : Memory L V} {l : L} {v : V}
    (h : (l, v) ∈ p.stores m) : (.store c l v : Event L V C B R A) ∈ p.callEvents c m := by
  induction p generalizing m with
  | done b => simp [stores] at h
  | load l' next ih => exact List.mem_cons_of_mem _ (ih _ h)
  | store l' v' next ih =>
    rcases List.mem_cons.mp h with h | h
    · obtain ⟨rfl, rfl⟩ := Prod.mk.inj h
      exact List.mem_cons_self
    · exact List.mem_cons_of_mem _ (ih h)

/-- What can be read off the events of a call is read off its stores. -/
theorem filterMap_callEvents {γ : Type} {f : Event L V C B R A → Option γ}
    (hload : ∀ c l, f (.load c l) = none) (hret : ∀ c b, f (.ret c b) = none) (c : C)
    (p : Program L V (W × B)) (m : Memory L V) :
    (p.callEvents c m).filterMap f = (p.stores m).filterMap (fun s => f (.store c s.1 s.2)) := by
  induction p generalizing m with
  | done a => simp [callEvents, stores, hret]
  | load l next ih => simp [callEvents, stores, hload, ih]
  | store l v next ih => simp [callEvents, stores, List.filterMap_cons, ih]

end Program

namespace System

variable (sys : System L V W C B R A)

theorem step_spawn {st : State L V W C B R A} (h : st.writer = .gone) :
    sys.Step st .spawn { st with writer := .idle sys.fresh } :=
  ⟨.spawn, by simp only [System.step, h]⟩

theorem step_start {st : State L V W C B R A} {i : ℕ} (r : R) (h : st.reader i = none) :
    sys.Step st (.start i r) (st.reading i (some (r, sys.read r))) :=
  ⟨.start i r, by simp only [System.step, h]⟩

theorem step_finish (st : State L V W C B R A) (i : ℕ) (r : R) (a : A) :
    sys.Step (st.reading i (some (r, .done a))) (.finish i r a) (st.reading i none) := by
  refine ⟨.read i, ?_⟩
  simp only [System.step, State.reading_reader, Function.update_self, State.reading_reading]

/-- A busy writer can finish its call. -/
theorem run_busy {st : State L V W C B R A} {c : C} {p : Program L V (W × B)}
    (h : st.writer = .busy c p) :
    Path sys.Step st (p.callEvents c st.mem)
      { st with mem := p.final st.mem, writer := .idle (p.result st.mem).1 } := by
  induction p generalizing st with
  | done a =>
    refine .cons ⟨.write, ?_⟩ .nil
    simp only [System.step, h]
    rfl
  | load l next ih =>
    have hstep : sys.Step st (.load c l) { st with writer := .busy c (next (st.mem l)) } :=
      ⟨.write, by simp only [System.step, h]⟩
    exact .cons hstep (ih _ rfl)
  | store l v next ih =>
    have hstep : sys.Step st (.store c l v)
        { st with mem := Function.update st.mem l v, writer := .busy c next } :=
      ⟨.write, by simp only [System.step, h]⟩
    exact .cons hstep (ih rfl)

/-- An idle writer can run a whole call. -/
theorem run_call {st : State L V W C B R A} {w : W} (c : C) (h : st.writer = .idle w) :
    Path sys.Step st (.call c :: (sys.call c w).callEvents c st.mem)
      { st with
        mem := (sys.call c w).final st.mem
        writer := .idle ((sys.call c w).result st.mem).1 } := by
  have hstep : sys.Step st (.call c) { st with writer := .busy c (sys.call c w) } :=
    ⟨.call c, by simp only [System.step, h]⟩
  exact .cons hstep (sys.run_busy rfl)

/-- A run whose writer is idle can go on with a whole call. -/
theorem Run.call {sys : System L V W C B R A} {m : Memory L V} {tr : List (Event L V C B R A)}
    {st : State L V W C B R A} {w : W} (h : sys.Run m tr st) (hw : st.writer = .idle w) (c : C) :
    sys.Run m (tr ++ .call c :: (sys.call c w).callEvents c st.mem)
      { st with
        mem := (sys.call c w).final st.mem
        writer := .idle ((sys.call c w).result st.mem).1 } :=
  h.append (sys.run_call c hw)

/-- A reader can run the first part of its read, if that part does not store. -/
theorem run_loads {α : Type} (st : State L V W C B R A) (i : ℕ) (r : R) {p : Program L V α}
    (f : α → Program L V A) (hp : p.stores st.mem = []) :
    Path sys.Step (st.reading i (some (r, p >>= f))) (p.loadEvents i st.mem)
      (st.reading i (some (r, f (p.result st.mem)))) := by
  induction p with
  | done a => exact .nil
  | load l next ih =>
    have hstep : sys.Step (st.reading i (some (r, .load l (fun v => next v >>= f))))
        (.read i l (st.mem l)) (st.reading i (some (r, next (st.mem l) >>= f))) := by
      refine ⟨.read i, ?_⟩
      simp only [System.step, State.reading_reader, Function.update_self, State.reading_mem,
        State.reading_reading]
    exact .cons hstep (ih _ hp)
  | store l v next ih => simp [Program.stores] at hp

/-- A run with a free reader can go on with a whole read, if it does not store. -/
theorem Run.read {sys : System L V W C B R A} {m : Memory L V} {tr : List (Event L V C B R A)}
    {st : State L V W C B R A} (h : sys.Run m tr st) (i : ℕ) (r : R) (hfree : st.reader i = none)
    (hr : (sys.read r).stores st.mem = []) :
    sys.Run m (tr ++ .start i r :: ((sys.read r).loadEvents i st.mem ++
      [.finish i r ((sys.read r).result st.mem)])) (st.reading i none) := by
  have hloads := sys.run_loads st i r pure hr
  rw [Program.bind_pure] at hloads
  exact h.append (.cons (sys.step_start r hfree) (hloads.append (.cons (sys.step_finish ..) .nil)))

end System

end K3smApis.AtomicProgram
