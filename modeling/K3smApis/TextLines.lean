import K3smApis.RuneText

/-!
# Lines of a text

Lines that each end in a separator, and the lines of a text file as Python iterates over
them: a line feed, a carriage return and the pair of both all end a line.
-/
namespace K3smApis.Lines

section Separator

variable {α : Type*}

/-- Each line with the separator behind it. -/
def terminated (sep : α) (ls : List (List α)) : List α := ls.flatMap (· ++ [sep])

theorem terminated_eq_intercalate {sep : α} {ls : List (List α)} (h : ls ≠ []) :
    terminated sep ls = [sep].intercalate ls ++ [sep] := by
  induction ls with
  | nil => exact absurd rfl h
  | cons l ls ih =>
    cases ls with
    | nil => simp [terminated]
    | cons m ls =>
      have hcut : terminated sep (l :: m :: ls) = l ++ [sep] ++ terminated sep (m :: ls) := by
        simp [terminated]
      rw [hcut, ih (by simp)]
      simp [List.intercalate]

/-- The pieces between separators hold none. -/
theorem of_mem_splitOnP {p : α → Bool} {t l : List α} (h : l ∈ t.splitOnP p) :
    ∀ c ∈ l, p c = false := by
  induction t generalizing l with
  | nil =>
    rw [List.splitOnP_nil, List.mem_singleton] at h
    simp [h]
  | cons b t ih =>
    rw [List.splitOnP_cons_eq_if_modifyHead] at h
    obtain ⟨first, more, hsplit⟩ := List.exists_cons_of_ne_nil (List.splitOnP_ne_nil p t)
    rw [hsplit] at h ih
    split_ifs at h with hb
    · rcases List.mem_cons.mp h with rfl | h
      · simp
      · exact ih h
    · rw [List.modifyHead_cons, List.mem_cons] at h
      rcases h with rfl | h
      · rw [List.forall_mem_cons]
        exact ⟨by simpa using hb, ih (by simp)⟩
      · exact ih (List.mem_cons_of_mem first h)

theorem subset_of_mem_splitOnP {p : α → Bool} {t l : List α} (h : l ∈ t.splitOnP p) : l ⊆ t := by
  induction t generalizing l with
  | nil =>
    rw [List.splitOnP_nil, List.mem_singleton] at h
    simp [h]
  | cons b t ih =>
    rw [List.splitOnP_cons_eq_if_modifyHead] at h
    obtain ⟨first, more, hsplit⟩ := List.exists_cons_of_ne_nil (List.splitOnP_ne_nil p t)
    rw [hsplit] at h ih
    split_ifs at h
    · rcases List.mem_cons.mp h with rfl | h
      · simp
      · exact List.subset_cons_of_subset b (ih h)
    · rw [List.modifyHead_cons, List.mem_cons] at h
      rcases h with rfl | h
      · exact List.cons_subset_cons b (ih (by simp))
      · exact List.subset_cons_of_subset b (ih (List.mem_cons_of_mem first h))

variable [BEq α]

theorem subset_of_mem_splitOn {a : α} {t l : List α} (h : l ∈ t.splitOn a) : l ⊆ t := by
  rw [List.splitOn_eq_splitOnP] at h
  exact subset_of_mem_splitOnP h

variable [LawfulBEq α]

theorem notMem_of_mem_splitOn {a : α} {t l : List α} (h : l ∈ t.splitOn a) : a ∉ l := by
  rw [List.splitOn_eq_splitOnP] at h
  intro hmem
  have hnot := of_mem_splitOnP h a hmem
  simp at hnot

/-- The first piece of a text starts with what stands before any separator. -/
theorem exists_splitOn_append {sep : α} {a : List α} (ha : sep ∉ a) (b : List α) :
    ∃ c ls, (a ++ b).splitOn sep = (a ++ c) :: ls := by
  by_cases hb : sep ∈ b
  · obtain ⟨c, d, rfl, hc⟩ := List.eq_append_cons_of_mem hb
    refine ⟨c, d.splitOn sep, ?_⟩
    rw [← List.append_assoc]
    exact List.splitOn_append_cons_self_of_not_mem (by simp [ha, hc]) d
  · exact ⟨b, [], List.splitOn_eq_singleton (by simp [ha, hb])⟩

theorem splitOn_terminated {sep : α} {ls : List (List α)} (h : ∀ l ∈ ls, sep ∉ l) :
    (terminated sep ls).splitOn sep = ls ++ [[]] := by
  induction ls with
  | nil => exact List.splitOn_nil sep
  | cons l ls ih =>
    have hcut : terminated sep (l :: ls) = l ++ sep :: terminated sep ls := by simp [terminated]
    rw [hcut, List.splitOn_append_cons_self_of_not_mem (h l (by simp)),
      ih (fun m hm => h m (by simp [hm])), List.cons_append]

/-- A text that ends in the separator is the lines between. -/
theorem terminated_dropLast_splitOn {sep : α} {t : List α} (h : t.getLast? = some sep) :
    terminated sep (t.splitOn sep).dropLast = t := by
  obtain ⟨s, rfl⟩ := List.getLast?_eq_some_iff.mp h
  have hsplit : (s ++ [sep]).splitOn sep = s.splitOn sep ++ [[]] := by
    rw [List.splitOn_append_cons_self, List.splitOn_nil]
  rw [hsplit, List.dropLast_concat, terminated_eq_intercalate (List.splitOn_ne_nil _ _),
    List.intercalate_splitOn]

end Separator

/-- The translation of line ends: every one of the three is a line feed. -/
def universal : Text → Text
  | '\r' :: '\n' :: t => '\n' :: universal t
  | '\r' :: t => '\n' :: universal t
  | c :: t => c :: universal t
  | [] => []

/-- `[l.rstrip("\n") for l in f]` for a file that holds the text. -/
def fileLines (t : Text) : List Text :=
  let ls := (universal t).splitOn '\n'
  if ls.getLast? = some [] then ls.dropLast else ls

theorem universal_cons {c : Char} (h : c ≠ '\r') (t : Text) :
    universal (c :: t) = c :: universal t := by
  rw [universal]
  · exact fun _ hc _ => h hc
  · exact h

theorem universal_of_notMem {t : Text} (h : '\r' ∉ t) : universal t = t := by
  induction t with
  | nil => rfl
  | cons c t ih =>
    rw [List.mem_cons, not_or] at h
    rw [universal_cons (Ne.symm h.1), ih h.2]

/-- Lines that are written with a line feed each are read back. -/
theorem fileLines_terminated {ls : List Text} (h : ∀ l ∈ ls, '\n' ∉ l ∧ '\r' ∉ l) :
    fileLines (terminated '\n' ls) = ls := by
  have hcr : '\r' ∉ terminated '\n' ls := by
    intro hmem
    obtain ⟨l, hl, hin⟩ := List.mem_flatMap.mp hmem
    have hnot := (h l hl).2
    simp [hnot] at hin
  rw [fileLines, universal_of_notMem hcr, splitOn_terminated (fun l hl => (h l hl).1)]
  simp

/-- A carriage return that no line feed follows. -/
def LoneReturn (t : Text) : Prop := ∃ a b, t = a ++ '\r' :: b ∧ b.head? ≠ some '\n'

theorem LoneReturn.cons {t : Text} (h : LoneReturn t) (c : Char) : LoneReturn (c :: t) := by
  obtain ⟨a, b, rfl, hb⟩ := h
  exact ⟨c :: a, b, rfl, hb⟩

/-- Where every carriage return stands in front of a line feed, the translation takes it off
the end of its line and does nothing else. -/
theorem splitOn_universal {t : Text} (h : ¬LoneReturn t) :
    List.Forall₂ (fun m l => m = l ∨ l = m ++ ['\r']) ((universal t).splitOn '\n')
      (t.splitOn '\n') := by
  induction t using universal.induct with
  | case1 t ih =>
    have hrest : ¬LoneReturn t := fun hr => h ((hr.cons _).cons _)
    have hleft : (universal ('\r' :: '\n' :: t)).splitOn '\n' =
        [] :: (universal t).splitOn '\n' := by
      rw [universal, List.splitOn_cons_eq_if_modifyHead, if_pos (by decide)]
    have hright : (['\r'] ++ '\n' :: t).splitOn '\n' = ['\r'] :: t.splitOn '\n' :=
      List.splitOn_append_cons_self_of_not_mem (by decide) t
    rw [hleft]
    exact hright ▸ .cons (.inr rfl) (ih hrest)
  | case2 t hnext ih =>
    refine absurd ⟨[], t, rfl, ?_⟩ h
    intro hhead
    obtain ⟨r, rfl⟩ := List.head?_eq_some_iff.mp hhead
    exact hnext r rfl
  | case3 c t _ hc ih =>
    have hreturn : c ≠ '\r' := fun hr => hc hr
    have hrest := ih (fun hr => h (hr.cons c))
    rw [universal_cons hreturn, List.splitOn_cons_eq_if_modifyHead,
      List.splitOn_cons_eq_if_modifyHead]
    generalize (universal t).splitOn '\n' = ms at hrest ⊢
    generalize t.splitOn '\n' = ls at hrest ⊢
    split_ifs
    · exact .cons (.inl rfl) hrest
    · cases hrest with
      | nil => exact .nil
      | cons hline hmore =>
        rw [List.modifyHead_cons, List.modifyHead_cons]
        refine .cons ?_ hmore
        rcases hline with rfl | rfl
        · exact .inl rfl
        · exact .inr rfl
  | case4 => exact .cons (.inl rfl) .nil

end K3smApis.Lines
