import K3smApis.PolicySpec
import Mathlib.Data.List.Sort

/-!
# Policy selection

`Selects` and `SelectPolicy`. The source sorts the selecting policies with
`sort.SliceStable`; a stable sort by a strict weak order has one result, which
insertion sort computes.
-/
namespace K3smApis.Budget

/-- A policy object: its name, the rest of its metadata, and its spec. The metadata is
copied and never read. -/
structure NodeBudgetPolicy (Meta : Type) where
  name : GoString
  metadata : Meta
  spec : NodeBudgetPolicySpec

/-- `Selects`: every selector label is present with the same value. -/
def NodeBudgetPolicySpec.selects (s : NodeBudgetPolicySpec) (nodeLabels : Option StringMap) :
    Bool :=
  (labelsOf s.nodeSelector).entries.all
    (fun e => (labelsOf nodeLabels).get? e.1 = some e.2)

/-- The comparison `SelectPolicy` sorts by. -/
def policyLess {M : Type} (a b : NodeBudgetPolicy M) : Prop :=
  if a.spec.priority ≠ b.spec.priority then b.spec.priority < a.spec.priority
  else a.name.less b.name

instance {M : Type} : DecidableRel (policyLess (M := M)) := fun a b =>
  inferInstanceAs (Decidable (if a.spec.priority ≠ b.spec.priority then
    b.spec.priority < a.spec.priority else a.name.less b.name))

/-- `sort.SliceStable(l, less)`. -/
def sliceStable {α : Type} (less : α → α → Prop) [DecidableRel less] (l : List α) : List α :=
  l.insertionSort (fun a b => ¬less b a)

/-- `SelectPolicy`: the winner, nil when no policy selects the node, and the names of
the other selecting policies in precedence order. -/
def selectPolicy {M : Type} (policies : List (NodeBudgetPolicy M))
    (nodeLabels : Option StringMap) : Option (NodeBudgetPolicy M) × Slice GoString :=
  match sliceStable policyLess (policies.filter (fun p => p.spec.selects nodeLabels)) with
  | [] => (none, none)
  | winner :: rest => (some winner, appended (rest.map NodeBudgetPolicy.name))

section Order

variable {M : Type} {a b c : NodeBudgetPolicy M}

/-- `a` takes precedence over `b`: a higher priority, or the same and a smaller name. -/
def Precedes (a b : NodeBudgetPolicy M) : Prop :=
  b.spec.priority.toInt < a.spec.priority.toInt ∨
    a.spec.priority.toInt = b.spec.priority.toInt ∧ a.name.less b.name

theorem policyLess_iff : policyLess a b ↔ Precedes a b := by
  unfold policyLess Precedes
  by_cases h : a.spec.priority = b.spec.priority
  · simp [h]
  · have hne : a.spec.priority.toInt ≠ b.spec.priority.toInt := by
      intro he
      exact h (Int32.toInt_inj.mp he)
    rw [if_pos h, Int32.lt_iff_toInt_lt]
    simp [hne]

theorem Precedes.asymm (h : Precedes a b) : ¬Precedes b a := by
  rintro (h' | ⟨he', hn'⟩)
  · rcases h with h | ⟨he, _⟩ <;> omega
  · rcases h with h | ⟨_, hn⟩
    · omega
    · exact GoString.less_irrefl _ (GoString.less_trans hn hn')

/-- Policies neither of which precedes the other have the same name. -/
theorem precedes_trichotomy (a b : NodeBudgetPolicy M) :
    Precedes a b ∨ a.name = b.name ∨ Precedes b a := by
  rcases lt_trichotomy a.spec.priority.toInt b.spec.priority.toInt with h | h | h
  · exact .inr (.inr (.inl h))
  · rcases GoString.less_trichotomy a.name b.name with hn | hn | hn
    · exact .inl (.inr ⟨h, hn⟩)
    · exact .inr (.inl hn)
    · exact .inr (.inr (.inr ⟨h.symm, hn⟩))
  · exact .inl (.inl h)

instance : Std.Total (fun a b : NodeBudgetPolicy M => ¬policyLess b a) where
  total a b := by
    by_cases h : policyLess b a
    · exact .inr (fun h' => (policyLess_iff.mp h).asymm (policyLess_iff.mp h'))
    · exact .inl h

/-- "Not preceded by" is transitive: the comparison is a strict weak order. -/
instance : IsTrans (NodeBudgetPolicy M) (fun a b => ¬policyLess b a) where
  trans a b c hab hbc := by
    rw [policyLess_iff] at *
    simp only [Precedes, not_or, not_and] at hab hbc
    rintro (hca | ⟨hca, hn⟩)
    · omega
    · -- equal priorities throughout, so the names decide
      have hba := hab.2 (by omega)
      have hcb := hbc.2 (by omega)
      rcases GoString.less_trichotomy b.name a.name with h | h | h
      · exact hba h
      · exact hcb (h ▸ hn)
      · exact hcb (GoString.less_trans hn h)

end Order

section Selection

variable {M : Type} {policies : List (NodeBudgetPolicy M)} {nodeLabels : Option StringMap}

/-- The policies that select the node: every selector label is on the node with an
equal value. -/
def Selected (policies : List (NodeBudgetPolicy M)) (nodeLabels : Option StringMap) :
    List (NodeBudgetPolicy M) :=
  policies.filter (fun p => p.spec.selects nodeLabels)

/-- Every label of the selector is on the node, with an equal value. -/
def SelectsNode (p : NodeBudgetPolicy M) (nodeLabels : Option StringMap) : Prop :=
  ∀ k v, (labelsOf p.spec.nodeSelector).get? k = some v → (labelsOf nodeLabels).get? k = some v

theorem selects_iff {p : NodeBudgetPolicy M} :
    p.spec.selects nodeLabels = true ↔ SelectsNode p nodeLabels := by
  simp only [NodeBudgetPolicySpec.selects, List.all_eq_true, decide_eq_true_iff,
    SelectsNode, StringMap.get?_eq_some, Prod.forall]

/-- The selecting policies in the order `SelectPolicy` puts them. -/
def ranked (policies : List (NodeBudgetPolicy M)) (nodeLabels : Option StringMap) :
    List (NodeBudgetPolicy M) :=
  sliceStable policyLess (Selected policies nodeLabels)

theorem ranked_perm : (ranked policies nodeLabels).Perm (Selected policies nodeLabels) :=
  List.perm_insertionSort _ _

theorem mem_ranked {p : NodeBudgetPolicy M} :
    p ∈ ranked policies nodeLabels ↔ p ∈ policies ∧ SelectsNode p nodeLabels := by
  rw [ranked_perm.mem_iff, Selected, List.mem_filter, selects_iff]

/-- With distinct names the ranking is strictly ordered by precedence. -/
theorem ranked_sorted (hnames : (policies.map NodeBudgetPolicy.name).Nodup) :
    (ranked policies nodeLabels).Pairwise Precedes := by
  have hweak : (ranked policies nodeLabels).Pairwise (fun a b => ¬policyLess b a) :=
    List.pairwise_insertionSort _ _
  have hdistinct : (ranked policies nodeLabels).Pairwise (fun a b => a.name ≠ b.name) := by
    have hsub : ((Selected policies nodeLabels).map NodeBudgetPolicy.name).Nodup :=
      hnames.sublist (List.filter_sublist.map _)
    have hperm : (ranked policies nodeLabels).Perm (Selected policies nodeLabels) := ranked_perm
    rw [← (hperm.map NodeBudgetPolicy.name).nodup_iff, List.Nodup, List.pairwise_map] at hsub
    exact hsub
  apply (hweak.and hdistinct).imp
  rintro a b ⟨hnot, hne⟩
  rcases precedes_trichotomy a b with h | h | h
  · exact h
  · exact absurd h hne
  · exact absurd (policyLess_iff.mpr h) hnot

/-- The ranking does not depend on the order of the input. -/
theorem ranked_congr {policies' : List (NodeBudgetPolicy M)} (hperm : policies'.Perm policies)
    (hnames : (policies.map NodeBudgetPolicy.name).Nodup) :
    ranked policies' nodeLabels = ranked policies nodeLabels := by
  have hnames' : (policies'.map NodeBudgetPolicy.name).Nodup :=
    (hperm.map _).nodup_iff.mpr hnames
  have hsame : (ranked policies' nodeLabels).Perm (ranked policies nodeLabels) :=
    ranked_perm.trans ((hperm.filter _).trans ranked_perm.symm)
  refine hsame.eq_of_pairwise ?_ (ranked_sorted hnames') (ranked_sorted hnames)
  intro a b _ _ hab hba
  exact absurd hba hab.asymm

theorem selectPolicy_eq : selectPolicy policies nodeLabels =
    match ranked policies nodeLabels with
    | [] => (none, none)
    | winner :: rest => (some winner, appended (rest.map NodeBudgetPolicy.name)) := rfl

/-- `SelectPolicy` over policies of distinct names: nil exactly when no policy selects
the node; otherwise the winner and the losers are the selecting policies in strict
precedence order, and the order of the input does not matter. -/
theorem selectPolicy_precedence (policies : List (NodeBudgetPolicy M))
    (nodeLabels : Option StringMap) (hnames : (policies.map NodeBudgetPolicy.name).Nodup) :
    (selectPolicy policies nodeLabels = (none, none) ↔
      ∀ p ∈ policies, ¬SelectsNode p nodeLabels) ∧
    ((∃ p ∈ policies, SelectsNode p nodeLabels) →
      ∃ (winner : NodeBudgetPolicy M) (losers : Slice GoString)
        (rest : List (NodeBudgetPolicy M)),
        selectPolicy policies nodeLabels = (some winner, losers) ∧
        winner ∈ policies ∧
        losers.list = rest.map NodeBudgetPolicy.name ∧
        (∀ p, p ∈ winner :: rest ↔ p ∈ policies ∧ SelectsNode p nodeLabels) ∧
        (winner.name :: losers.list).Nodup ∧
        (winner :: rest).Pairwise Precedes) ∧
    ∀ policies', policies'.Perm policies →
      selectPolicy policies' nodeLabels = selectPolicy policies nodeLabels := by
  have hsorted : (ranked policies nodeLabels).Pairwise Precedes := ranked_sorted hnames
  have hnodup : ((ranked policies nodeLabels).map NodeBudgetPolicy.name).Nodup := by
    rw [(ranked_perm.map _).nodup_iff]
    exact hnames.sublist (List.filter_sublist.map _)
  refine ⟨?_, ?_, ?_⟩
  · rw [selectPolicy_eq]
    cases hr : ranked policies nodeLabels with
    | nil =>
      refine iff_of_true rfl ?_
      intro p hp hsel
      have hmem := mem_ranked.mpr ⟨hp, hsel⟩
      rw [hr] at hmem
      exact absurd hmem List.not_mem_nil
    | cons w rest =>
      refine iff_of_false (by simp) ?_
      intro hnone
      have hw : w ∈ ranked policies nodeLabels := by rw [hr]; exact List.mem_cons_self
      obtain ⟨hmem, hsel⟩ := mem_ranked.mp hw
      exact hnone w hmem hsel
  · rintro ⟨p, hp, hsel⟩
    have hmem := mem_ranked.mpr ⟨hp, hsel⟩
    cases hr : ranked policies nodeLabels with
    | nil =>
      rw [hr] at hmem
      exact absurd hmem List.not_mem_nil
    | cons w rest =>
      rw [hr] at hsorted hnodup
      have hchar (q : NodeBudgetPolicy M) :
          q ∈ w :: rest ↔ q ∈ policies ∧ SelectsNode q nodeLabels := by
        rw [← hr]
        exact mem_ranked
      refine ⟨w, appended (rest.map NodeBudgetPolicy.name), rest, ?_,
        ((hchar w).mp List.mem_cons_self).1, appended_list _, hchar, ?_, hsorted⟩
      · rw [selectPolicy_eq, hr]
      · rw [appended_list]
        exact hnodup
  · intro policies' hperm
    rw [selectPolicy_eq, selectPolicy_eq, ranked_congr hperm hnames]

end Selection

/-- Two policies of one priority and one that does not select the node. -/
def tiedPolicies : List (NodeBudgetPolicy Unit) :=
  [⟨lit "zinc", (), {}⟩, ⟨lit "iron", (), {}⟩,
    ⟨lit "gold", (), { priority := 9, nodeSelector := some ⟨[(lit "gpu", lit "yes")], by simp⟩ }⟩]

theorem selectPolicy_precedence_tied :
    (tiedPolicies.map NodeBudgetPolicy.name).Nodup ∧
      (selectPolicy tiedPolicies none).1.map NodeBudgetPolicy.name = some (lit "iron") ∧
      ∀ policies', policies'.Perm tiedPolicies →
        selectPolicy policies' none = selectPolicy tiedPolicies none :=
  ⟨by decide, by decide, (selectPolicy_precedence tiedPolicies none (by decide)).2.2⟩

end K3smApis.Budget
