import Mathlib.Data.List.Basic
import Mathlib.Logic.Function.Basic
import Mathlib.Tactic

/-!
# Programs over shared atomic words

A program is a sequence of single atomic loads and stores of shared words, with
local computation between them. `stores` and `result` are what it does when no
other thread stores meanwhile; `Reads` relates the values its loads returned,
whoever stored them, to its result.
-/
namespace K3smApis.AtomicProgram

variable {L V α β : Type}

/-- A program with locations `L`, values `V` and result `α`. -/
inductive Program (L V α : Type) where
  | done (a : α)
  | load (l : L) (next : V → Program L V α)
  | store (l : L) (v : V) (next : Program L V α)

namespace Program

def bind : Program L V α → (α → Program L V β) → Program L V β
  | .done a, f => f a
  | .load l next, f => .load l (fun v => (next v).bind f)
  | .store l v next, f => .store l v (next.bind f)

instance : Monad (Program L V) where
  pure := .done
  bind := bind

theorem bind_assoc {γ : Type} (p : Program L V α) (f : α → Program L V β)
    (g : β → Program L V γ) : p >>= f >>= g = p >>= fun a => f a >>= g := by
  induction p with
  | done a => rfl
  | load l next ih => exact congrArg (Program.load l) (funext ih)
  | store l v next ih => exact congrArg (Program.store l v) ih

theorem bind_pure (p : Program L V α) : p >>= pure = p := by
  induction p with
  | done a => rfl
  | load l next ih => exact congrArg (Program.load l) (funext ih)
  | store l v next ih => exact congrArg (Program.store l v) ih

/-- Load one location. -/
def get (l : L) : Program L V V := .load l .done

/-- Store one value. -/
def put (l : L) (v : V) : Program L V Unit := .store l v (.done ())

/-- Load the locations in order. -/
def loadAll : List L → Program L V (List V)
  | [] => .done []
  | l :: ls => .load l (fun v => (loadAll ls).bind (fun vs => .done (v :: vs)))

theorem loadAll_cons (l : L) (ls : List L) : (loadAll (l :: ls) : Program L V (List V)) =
    get l >>= fun v => loadAll ls >>= fun vs => pure (v :: vs) := rfl

/-- Store the pairs in order. -/
def storeAll : List (L × V) → Program L V Unit
  | [] => .done ()
  | s :: ss => .store s.1 s.2 (storeAll ss)

end Program

/-- The contents of the shared words. -/
abbrev Memory (L V : Type) := L → V

section Sequential

variable [DecidableEq L]

/-- The memory after the stores, in order. -/
def applyStores (m : Memory L V) (ss : List (L × V)) : Memory L V :=
  ss.foldl (fun m s => Function.update m s.1 s.2) m

@[simp] theorem applyStores_nil (m : Memory L V) : applyStores m [] = m := rfl

@[simp] theorem applyStores_cons (m : Memory L V) (s : L × V) (ss : List (L × V)) :
    applyStores m (s :: ss) = applyStores (Function.update m s.1 s.2) ss := rfl

@[simp] theorem applyStores_append (m : Memory L V) (ss ts : List (L × V)) :
    applyStores m (ss ++ ts) = applyStores (applyStores m ss) ts :=
  List.foldl_append

/-- A location no store names keeps its value. -/
theorem applyStores_of_not_mem (m : Memory L V) (ss : List (L × V)) (l : L)
    (h : ∀ s ∈ ss, s.1 ≠ l) : applyStores m ss l = m l := by
  induction ss generalizing m with
  | nil => rfl
  | cons s ss ih =>
    rw [applyStores_cons, ih _ (fun t ht => h t (List.mem_cons_of_mem _ ht))]
    exact Function.update_of_ne (Ne.symm (h s List.mem_cons_self)) _ _

/-- Stores of the values of a function leave those values. -/
theorem applyStores_map (m : Memory L V) (f : L → V) (ls : List L) (l : L) :
    applyStores m (ls.map (fun l => (l, f l))) l = if l ∈ ls then f l else m l := by
  induction ls generalizing m with
  | nil => simp
  | cons a ls ih =>
    rw [List.map_cons, applyStores_cons, ih]
    by_cases hl : l ∈ ls
    · simp [hl]
    · by_cases ha : l = a
      · subst ha
        simp [hl]
      · simp [hl, ha]

/-- Of stores to distinct locations each one is in memory at the end. -/
theorem applyStores_of_mem (m : Memory L V) {ss : List (L × V)} (hnd : (ss.map Prod.fst).Nodup)
    {s : L × V} (hs : s ∈ ss) : applyStores m ss s.1 = s.2 := by
  induction ss generalizing m with
  | nil => simp at hs
  | cons t ss ih =>
    rw [List.map_cons, List.nodup_cons] at hnd
    rw [applyStores_cons]
    rcases List.mem_cons.mp hs with rfl | hs
    · rw [applyStores_of_not_mem]
      · exact Function.update_self _ _ _
      · intro t ht heq
        exact hnd.1 (heq ▸ List.mem_map_of_mem ht)
    · exact ih _ hnd.2 hs

namespace Program

/-- The stores the program performs from memory `m`, alone. -/
def stores : Program L V α → Memory L V → List (L × V)
  | .done _, _ => []
  | .load l next, m => (next (m l)).stores m
  | .store l v next, m => (l, v) :: next.stores (Function.update m l v)

/-- The result the program computes from memory `m`, alone. -/
def result : Program L V α → Memory L V → α
  | .done a, _ => a
  | .load l next, m => (next (m l)).result m
  | .store l v next, m => next.result (Function.update m l v)

/-- The memory the program leaves. -/
def final (p : Program L V α) (m : Memory L V) : Memory L V := applyStores m (p.stores m)

@[simp] theorem stores_pure (a : α) (m : Memory L V) :
    (pure a : Program L V α).stores m = [] := rfl

@[simp] theorem result_pure (a : α) (m : Memory L V) :
    (pure a : Program L V α).result m = a := rfl

@[simp] theorem stores_get (l : L) (m : Memory L V) :
    (get l : Program L V V).stores m = [] := rfl

@[simp] theorem result_get (l : L) (m : Memory L V) :
    (get l : Program L V V).result m = m l := rfl

@[simp] theorem final_get (l : L) (m : Memory L V) : (get l : Program L V V).final m = m := rfl

@[simp] theorem stores_put (l : L) (v : V) (m : Memory L V) :
    (put l v).stores m = [(l, v)] := rfl

theorem stores_result_bind (p : Program L V α) (f : α → Program L V β) (m : Memory L V) :
    (p >>= f).stores m = p.stores m ++ (f (p.result m)).stores (p.final m) ∧
      (p >>= f).result m = (f (p.result m)).result (p.final m) := by
  change (p.bind f).stores m = _ ∧ (p.bind f).result m = _
  induction p generalizing m with
  | done a => exact ⟨rfl, rfl⟩
  | load l next ih => exact ih (m l) m
  | store l v next ih =>
    obtain ⟨hs, hr⟩ := ih (Function.update m l v)
    exact ⟨congrArg ((l, v) :: ·) hs, hr⟩

@[simp] theorem stores_bind (p : Program L V α) (f : α → Program L V β) (m : Memory L V) :
    (p >>= f).stores m = p.stores m ++ (f (p.result m)).stores (p.final m) :=
  (stores_result_bind p f m).1

@[simp] theorem result_bind (p : Program L V α) (f : α → Program L V β) (m : Memory L V) :
    (p >>= f).result m = (f (p.result m)).result (p.final m) :=
  (stores_result_bind p f m).2

@[simp] theorem stores_loadAll (ls : List L) (m : Memory L V) :
    (loadAll ls : Program L V (List V)).stores m = [] := by
  induction ls with
  | nil => rfl
  | cons l ls ih =>
    have h := stores_bind (loadAll ls) (fun vs => (pure (m l :: vs) : Program L V (List V))) m
    rw [ih] at h
    exact h

@[simp] theorem result_loadAll (ls : List L) (m : Memory L V) :
    (loadAll ls : Program L V (List V)).result m = ls.map m := by
  induction ls with
  | nil => rfl
  | cons l ls ih =>
    have h := result_bind (loadAll ls) (fun vs => (pure (m l :: vs) : Program L V (List V))) m
    rw [ih] at h
    exact h

@[simp] theorem final_loadAll (ls : List L) (m : Memory L V) :
    (loadAll ls : Program L V (List V)).final m = m := by
  simp [final]

@[simp] theorem stores_storeAll (ss : List (L × V)) (m : Memory L V) :
    (storeAll ss).stores m = ss := by
  induction ss generalizing m with
  | nil => rfl
  | cons s ss ih => exact congrArg (s :: ·) (ih _)

@[simp] theorem final_storeAll (ss : List (L × V)) (m : Memory L V) :
    (storeAll ss).final m = applyStores m ss := by
  simp [final]

end Program

end Sequential

/-- A program without stores returned `a` after its loads returned the given values,
in order. -/
inductive Reads : Program L V α → List (L × V) → α → Prop where
  | done (a : α) : Reads (.done a) [] a
  | load {l : L} {v : V} {next : V → Program L V α} {rs : List (L × V)} {a : α} :
      Reads (next v) rs a → Reads (.load l next) ((l, v) :: rs) a

namespace Reads

theorem of_pure {a b : α} {rs : List (L × V)} (h : Reads (pure a : Program L V α) rs b) :
    rs = [] ∧ b = a := by
  cases h with
  | done => exact ⟨rfl, rfl⟩

theorem of_load {l : L} {next : V → Program L V α} {rs : List (L × V)} {a : α}
    (h : Reads (.load l next) rs a) :
    ∃ v rest, rs = (l, v) :: rest ∧ Reads (next v) rest a := by
  cases h with
  | load h => exact ⟨_, _, rfl, h⟩

theorem of_get {l : L} {v : V} {rs : List (L × V)}
    (h : Reads (Program.get l : Program L V V) rs v) : rs = [(l, v)] := by
  obtain ⟨u, rest, rfl, hrest⟩ := of_load h
  obtain ⟨rfl, rfl⟩ := of_pure hrest
  rfl

/-- The loads of a sequence split into those of its parts. -/
theorem of_bind {p : Program L V α} {f : α → Program L V β} {rs : List (L × V)} {b : β}
    (h : Reads (p >>= f) rs b) :
    ∃ rs₁ a rs₂, rs = rs₁ ++ rs₂ ∧ Reads p rs₁ a ∧ Reads (f a) rs₂ b := by
  induction p generalizing rs with
  | done a => exact ⟨[], a, rs, rfl, .done a, h⟩
  | load l next ih =>
    obtain ⟨v, rest, rfl, hrest⟩ := of_load h
    obtain ⟨rs₁, a, rs₂, rfl, h₁, h₂⟩ := ih v hrest
    exact ⟨(l, v) :: rs₁, a, rs₂, rfl, .load h₁, h₂⟩
  | store l v next ih => cases h

theorem of_loadAll {ls : List L} {rs : List (L × V)} {vs : List V}
    (h : Reads (Program.loadAll ls) rs vs) : rs.map Prod.fst = ls ∧ rs.map Prod.snd = vs := by
  induction ls generalizing rs vs with
  | nil =>
    obtain ⟨rfl, rfl⟩ := of_pure h
    exact ⟨rfl, rfl⟩
  | cons l ls ih =>
    obtain ⟨v, rest, rfl, hrest⟩ := of_load h
    obtain ⟨rs₁, us, rs₂, rfl, h₁, h₂⟩ := of_bind hrest
    obtain ⟨rfl, rfl⟩ := of_pure h₂
    obtain ⟨hl, hv⟩ := ih h₁
    simp [hl, hv]

end Reads

end K3smApis.AtomicProgram
