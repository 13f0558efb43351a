import K3smApis.SchemaProbe

/-!
# Windowed counts of unknown reasons

`mergeUnknownWindows` adds up the counts whose reason this release does not know before
the report is validated. The validator sees the sums only, so a negative count can stand
behind a sum that is not negative.
-/
namespace K3smApis.Budget
open Check GoJson

/-- The reason decoded to "unknown". -/
def WindowCount.Unknown (w : WindowCount) : Prop := w.reason = word .unknown

instance (w : WindowCount) : Decidable w.Unknown := inferInstanceAs (Decidable (_ = _))

/-- A pass of the loop as a search for the entry of the window. -/
def mergeWindow (out : List WindowCount) (w : WindowCount) : List WindowCount :=
  if w.reason ≠ word .unknown then out ++ [w]
  else match out.findIdx? (fun u => u.reason = word .unknown ∧ u.window = w.window) with
    | none => out ++ [w]
    | some i => out.modify i (fun u => { u with count := addCount u.count w.count })

/-- The index the map holds for a window is that of its first entry of unknown reason, and it
holds one for every window that has such an entry. -/
def Merging.Indexed (s : Merging) : Prop :=
  ∀ window, s.index.lookup window =
    s.out.findIdx? (fun u => u.reason = word .unknown ∧ u.window = window)

theorem Merging.Indexed.out_add {s : Merging} (h : s.Indexed) (w : WindowCount) :
    (s.add w).out = mergeWindow s.out w := by
  unfold Merging.add mergeWindow
  split_ifs
  · rfl
  · rw [h w.window]
    cases s.out.findIdx? (fun u => u.reason = word .unknown ∧ u.window = w.window) <;> rfl

theorem map_modify {α β : Type} {h : α → β} {f : α → α} {g : β → β} {l : List α} {i : ℕ}
    (hcomm : ∀ u, l[i]? = some u → h (f u) = g (h u)) :
    (l.modify i f).map h = (l.map h).modify i g := by
  refine List.ext_getElem? (fun j => ?_)
  rw [List.getElem?_map, List.getElem?_modify, List.getElem?_modify, List.getElem?_map]
  cases hu : l[j]? with
  | none => rfl
  | some u =>
    by_cases hij : i = j
    · subst hij
      simp [hcomm u hu]
    · simp [hij]

/-- Adding to a count moves no entry. -/
theorem findIdx?_modify_count (out : List WindowCount) (i : ℕ) (f : Int64 → Int64)
    (window : Wire CounterWindow) :
    (out.modify i (fun u => { u with count := f u.count })).findIdx?
        (fun u => u.reason = word .unknown ∧ u.window = window) =
      out.findIdx? (fun u => u.reason = word .unknown ∧ u.window = window) := by
  have hkeys : (out.modify i (fun u => { u with count := f u.count })).map
      (fun u => (u.reason, u.window)) = out.map (fun u => (u.reason, u.window)) := by
    have hkeep := map_modify (l := out) (i := i) (h := fun u : WindowCount => (u.reason, u.window))
      (f := fun u => { u with count := f u.count }) (g := id) (fun _ _ => rfl)
    rwa [List.modify_id] at hkeep
  have hfind := congrArg (List.findIdx? fun k => k.1 = word .unknown ∧ k.2 = window) hkeys
  rwa [List.findIdx?_map, List.findIdx?_map] at hfind

theorem Merging.Indexed.add {s : Merging} (h : s.Indexed) (w : WindowCount) :
    (s.add w).Indexed := by
  unfold Merging.add
  split_ifs with hw
  · intro window
    dsimp only
    rw [List.findIdx?_append, ← h window]
    simp [hw]
  have hreason := not_not.mp hw
  cases hlookup : s.index.lookup w.window with
  | some i =>
    intro window
    exact (h window).trans (findIdx?_modify_count s.out i (addCount · w.count) window).symm
  | none =>
    intro window
    dsimp only
    rw [List.findIdx?_append, ← h window]
    by_cases heq : window = w.window
    · rw [heq, List.lookup_cons_self, hlookup]
      simp [hreason]
    · have hne : w.window ≠ window := Ne.symm heq
      have hbeq : (window == w.window) = false := beq_false_of_ne heq
      simp [List.lookup_cons, hbeq, hne]

theorem Merging.Indexed.out_foldl {s : Merging} (h : s.Indexed) (ws : List WindowCount) :
    (ws.foldl Merging.add s).out = ws.foldl mergeWindow s.out := by
  induction ws generalizing s with
  | nil => rfl
  | cons w ws ih => rw [List.foldl_cons, List.foldl_cons, ih (h.add w), h.out_add]

/-- The map makes no difference: `mergeUnknownWindows` folds the search. -/
theorem mergeUnknownWindows_eq (ws : Slice WindowCount) :
    mergeUnknownWindows ws = appended (ws.list.foldl mergeWindow []) :=
  congrArg appended (Merging.Indexed.out_foldl (s := {}) (fun _ => rfl) _)

/-- What a pass does: append the count, or add it to the entry of its window. -/
theorem mergeWindow_cases (out : List WindowCount) (w : WindowCount) :
    (¬w.Unknown ∧ mergeWindow out w = out ++ [w]) ∨
    (w.Unknown ∧ (∀ u ∈ out, u.Unknown → u.window ≠ w.window) ∧ mergeWindow out w = out ++ [w]) ∨
    (w.Unknown ∧ ∃ a u b, out = a ++ u :: b ∧ u.Unknown ∧ u.window = w.window ∧
      mergeWindow out w = a ++ { u with count := addCount u.count w.count } :: b) := by
  unfold mergeWindow
  by_cases hw : w.reason = word .unknown
  · rw [if_neg (not_not.mpr hw)]
    refine .inr ?_
    cases hfind : out.findIdx? (fun u => u.reason = word .unknown ∧ u.window = w.window) with
    | none =>
      refine .inl ⟨hw, fun u hu hunknown heq => ?_, rfl⟩
      have := List.findIdx?_eq_none_iff.mp hfind u hu
      simp [show u.reason = word .unknown from hunknown, heq] at this
    | some i =>
      obtain ⟨hi, hu, -⟩ := List.findIdx?_eq_some_iff_getElem.mp hfind
      obtain ⟨hunknown, hwindow⟩ := of_decide_eq_true hu
      refine .inr ⟨hw, out.take i, out[i], out.drop (i + 1), ?_, hunknown, hwindow, ?_⟩
      · rw [← List.drop_eq_getElem_cons hi, List.take_append_drop]
      · exact List.modify_eq_take_cons_drop hi
  · rw [if_pos hw]
    exact .inl ⟨hw, rfl⟩

theorem addCount_zero (b : Int64) : addCount 0 b = b := by
  have hroom : ¬(0 < b ∧ Int64.maxValue - b < 0) := by
    rintro ⟨hpos, hneg⟩
    have hmax : Int64.maxValue.toInt = 2 ^ 63 - 1 := by decide
    have hzero : (0 : Int64).toInt = 0 := by decide
    have hlt := b.toInt_lt
    rw [Int64.lt_iff_toInt_lt, hzero] at hpos hneg
    rw [Int64.toInt_sub, hmax, Int.bmod_eq_of_le (by omega) (by omega)] at hneg
    omega
  rw [addCount, if_neg hroom]
  simp

/-- The counts of unknown reason of one window, added up in their order. -/
def unknownTotal (ws : List WindowCount) (window : Wire CounterWindow) : Int64 :=
  (ws.filter (fun w => w.Unknown ∧ w.window = window)).foldl (fun n w => addCount n w.count) 0

theorem unknownTotal_append (ws : List WindowCount) (w : WindowCount)
    (window : Wire CounterWindow) :
    unknownTotal (ws ++ [w]) window =
      if w.Unknown ∧ w.window = window then addCount (unknownTotal ws window) w.count
      else unknownTotal ws window := by
  unfold unknownTotal
  rw [List.filter_append, List.foldl_append]
  split_ifs with h <;> simp [h]

/-- What the loop has made of the counts `ws`. -/
structure Merged (ws out : List WindowCount) : Prop where
  totals : ∀ u ∈ out, u.Unknown → u.count = unknownTotal ws u.window
  covers : ∀ w ∈ ws, w.Unknown → ∃ u ∈ out, u.Unknown ∧ u.window = w.window
  known : ∀ w, ¬w.Unknown → (w ∈ out ↔ w ∈ ws)
  single : out.Pairwise (fun u v => u.Unknown → v.Unknown → u.window ≠ v.window)

theorem Merged.total_eq_zero {ws out : List WindowCount} (h : Merged ws out)
    {window : Wire CounterWindow} (hnone : ∀ u ∈ out, u.Unknown → u.window ≠ window) :
    unknownTotal ws window = 0 := by
  have hempty : ws.filter (fun w => w.Unknown ∧ w.window = window) = [] := by
    rw [List.filter_eq_nil_iff]
    intro w hw hboth
    obtain ⟨hunknown, hwindow⟩ := of_decide_eq_true hboth
    obtain ⟨u, hu, hu', heq⟩ := h.covers w hw hunknown
    exact hnone u hu hu' (heq.trans hwindow)
  rw [unknownTotal, hempty]
  rfl

/-- A count that is appended: no other entry has its window. -/
theorem Merged.append {ws out : List WindowCount} (h : Merged ws out) (w : WindowCount)
    (hfresh : w.Unknown → ∀ u ∈ out, u.Unknown → u.window ≠ w.window) :
    Merged (ws ++ [w]) (out ++ [w]) where
  totals := by
    intro u hu hunknown
    rw [unknownTotal_append]
    rcases List.mem_append.mp hu with hu | hu
    · have hother : ¬(w.Unknown ∧ w.window = u.window) :=
        fun hw => hfresh hw.1 u hu hunknown hw.2.symm
      rw [if_neg hother]
      exact h.totals u hu hunknown
    · obtain rfl := List.mem_singleton.mp hu
      rw [if_pos ⟨hunknown, rfl⟩, h.total_eq_zero (hfresh hunknown), addCount_zero]
  covers := by
    intro v hv hunknown
    rcases List.mem_append.mp hv with hv | hv
    · obtain ⟨u, hu, hu'⟩ := h.covers v hv hunknown
      exact ⟨u, List.mem_append_left _ hu, hu'⟩
    · obtain rfl := List.mem_singleton.mp hv
      exact ⟨v, List.mem_append_right _ (List.mem_singleton.mpr rfl), hunknown, rfl⟩
  known := by
    intro v hv
    rw [List.mem_append, List.mem_append, h.known v hv]
  single := by
    refine List.pairwise_append.mpr ⟨h.single, List.pairwise_singleton _ _, ?_⟩
    intro u hu v hv hunknown hv'
    obtain rfl := List.mem_singleton.mp hv
    exact hfresh hv' u hu hunknown

/-- A count that is added to the entry of its window. -/
theorem Merged.add {ws a b : List WindowCount} {u w : WindowCount}
    (h : Merged ws (a ++ u :: b)) (hw : w.Unknown) (hu : u.Unknown)
    (hwindow : u.window = w.window) :
    Merged (ws ++ [w]) (a ++ { u with count := addCount u.count w.count } :: b) := by
  have hmem : u ∈ a ++ u :: b := List.mem_append_right _ (List.mem_cons_self ..)
  obtain ⟨ha, hub, hab⟩ := List.pairwise_append.mp h.single
  obtain ⟨hub, hb⟩ := List.pairwise_cons.mp hub
  -- no other entry has the window, so its total stays
  have hother : ∀ v, v ∈ a ∨ v ∈ b → v.Unknown → v.window ≠ w.window := by
    rintro v (hv | hv) hunknown heq
    · exact hab v hv u (List.mem_cons_self ..) hunknown hu (heq.trans hwindow.symm)
    · exact hub v hv hu hunknown (hwindow.trans heq.symm)
  refine ⟨fun v hv hunknown => ?_, fun v hv hunknown => ?_, fun v hv => ?_, ?_⟩
  · rw [unknownTotal_append]
    have hsplit : v = { u with count := addCount u.count w.count } ∨ v ∈ a ∨ v ∈ b := by
      simp only [List.mem_append, List.mem_cons] at hv
      tauto
    rcases hsplit with rfl | hv
    · rw [if_pos ⟨hw, hwindow.symm⟩, h.totals u hmem hu]
    · rw [if_neg (fun hboth => hother v hv hunknown hboth.2.symm)]
      refine h.totals v ?_ hunknown
      simp only [List.mem_append, List.mem_cons]
      tauto
  · have hnew : (∃ x ∈ a ++ u :: b, x.Unknown ∧ x.window = v.window) →
        ∃ x ∈ a ++ { u with count := addCount u.count w.count } :: b,
          x.Unknown ∧ x.window = v.window := by
      rintro ⟨x, hx, hx'⟩
      by_cases hxu : x = u
      · exact ⟨_, List.mem_append_right _ (List.mem_cons_self ..), hxu ▸ hx'⟩
      · refine ⟨x, ?_, hx'⟩
        simp only [List.mem_append, List.mem_cons] at hx ⊢
        tauto
    rcases List.mem_append.mp hv with hv | hv
    · exact hnew (h.covers v hv hunknown)
    · obtain rfl := List.mem_singleton.mp hv
      exact hnew ⟨u, hmem, hu, hwindow⟩
  · have hvu : v ≠ u := fun heq => hv (heq ▸ hu)
    have hvnew : v ≠ { u with count := addCount u.count w.count } := fun heq => hv (heq ▸ hu)
    have hvw : v ≠ w := fun heq => hv (heq ▸ hw)
    have hknown := h.known v hv
    simp only [List.mem_append, List.mem_cons, List.not_mem_nil] at hknown ⊢
    tauto
  · refine List.pairwise_append.mpr ⟨ha, List.pairwise_cons.mpr ⟨?_, hb⟩, ?_⟩
    · intro v hv _ hunknown
      exact hub v hv hu hunknown
    · intro v hv x hx hunknown hx'
      rcases List.mem_cons.mp hx with rfl | hx
      · exact hab v hv u (List.mem_cons_self ..) hunknown hu
      · exact hab v hv x (List.mem_cons_of_mem _ hx) hunknown hx'

theorem Merged.step {ws out : List WindowCount} (h : Merged ws out) (w : WindowCount) :
    Merged (ws ++ [w]) (mergeWindow out w) := by
  rcases mergeWindow_cases out w with ⟨hw, heq⟩ | ⟨-, hfresh, heq⟩ |
    ⟨hw, a, u, b, rfl, hu, hwindow, heq⟩
  · exact heq ▸ h.append w (fun hunknown => absurd hunknown hw)
  · exact heq ▸ h.append w (fun _ => hfresh)
  · exact heq ▸ h.add hw hu hwindow

theorem Merged.run {ws out : List WindowCount} (h : Merged ws out) (more : List WindowCount) :
    Merged (ws ++ more) (more.foldl mergeWindow out) := by
  induction more generalizing ws out with
  | nil => simpa using h
  | cons w more ih => simpa using ih (h.step w)

theorem merged_foldl (ws : List WindowCount) : Merged ws (ws.foldl mergeWindow []) := by
  have hstart : Merged [] [] := ⟨by simp, by simp, by simp, .nil⟩
  simpa using hstart.run ws

/-- The count, read as zero when its reason is unknown. -/
def WindowCount.zeroed (w : WindowCount) : WindowCount :=
  if w.Unknown then { w with count := 0 } else w

@[simp] theorem WindowCount.zeroed_window (w : WindowCount) : w.zeroed.window = w.window := by
  unfold zeroed
  split_ifs <;> rfl

@[simp] theorem WindowCount.zeroed_reason (w : WindowCount) : w.zeroed.reason = w.reason := by
  unfold zeroed
  split_ifs <;> rfl

@[simp] theorem WindowCount.zeroed_key (w : WindowCount) : w.zeroed.key = w.key := by
  simp [key]

theorem WindowCount.zeroed_of_unknown {w : WindowCount} (h : w.Unknown) :
    w.zeroed = { w with count := 0 } := if_pos h

theorem mergeWindow_zeroed (out : List WindowCount) (w : WindowCount) :
    mergeWindow (out.map WindowCount.zeroed) w.zeroed =
      (mergeWindow out w).map WindowCount.zeroed := by
  unfold mergeWindow
  rw [WindowCount.zeroed_reason, WindowCount.zeroed_window]
  split_ifs with hw
  · rw [List.map_append, List.map_singleton]
  · have hfind : (out.map WindowCount.zeroed).findIdx?
        (fun u => u.reason = word .unknown ∧ u.window = w.window) =
        out.findIdx? (fun u => u.reason = word .unknown ∧ u.window = w.window) := by
      rw [List.findIdx?_map]
      congr 1
      funext u
      simp
    rw [hfind]
    cases hi : out.findIdx? (fun u => u.reason = word .unknown ∧ u.window = w.window) with
    | none => simp
    | some i =>
      obtain ⟨hlt, hu, -⟩ := List.findIdx?_eq_some_iff_getElem.mp hi
      refine (map_modify (fun u hget => ?_)).symm
      rw [List.getElem?_eq_getElem hlt, Option.some.injEq] at hget
      have hunknown : u.Unknown := hget ▸ (of_decide_eq_true hu).1
      have hw' : w.Unknown := not_not.mp hw
      have hsum : ({ u with count := addCount u.count w.count } : WindowCount).zeroed =
          { u with count := 0 } := WindowCount.zeroed_of_unknown hunknown
      rw [hsum, WindowCount.zeroed_of_unknown hunknown, WindowCount.zeroed_of_unknown hw',
        addCount_zero]

theorem foldl_mergeWindow_zeroed (ws out : List WindowCount) :
    (ws.map WindowCount.zeroed).foldl mergeWindow (out.map WindowCount.zeroed) =
      (ws.foldl mergeWindow out).map WindowCount.zeroed := by
  induction ws generalizing out with
  | nil => rfl
  | cons w ws ih => simp only [List.map_cons, List.foldl_cons, mergeWindow_zeroed, ih]

/-- Only the counts of unknown reason are read differently. -/
theorem WindowCount.valid_iff_zeroed {w : WindowCount} :
    w.Valid ↔ w.zeroed.Valid ∧ (w.Unknown → 0 ≤ w.count.toInt) := by
  constructor
  · intro h
    refine ⟨⟨by simpa using h.window, by simpa using h.reason, ?_⟩, fun _ => h.count⟩
    unfold zeroed
    split_ifs
    · exact le_of_eq rfl
    · exact h.count
  · rintro ⟨h, hcount⟩
    refine ⟨by simpa using h.window, by simpa using h.reason, ?_⟩
    by_cases hw : w.Unknown
    · exact hcount hw
    · simpa [zeroed, hw] using h.count

def BandCounters.unknownZeroed (c : BandCounters) : BandCounters :=
  { c with windows := c.windows.map (List.map WindowCount.zeroed) }

theorem BandCounters.unknownZeroed_list (c : BandCounters) :
    c.unknownZeroed.mergedWindows.windows.list =
      c.mergedWindows.windows.list.map WindowCount.zeroed := by
  have hlist : c.unknownZeroed.windows.list = c.windows.list.map WindowCount.zeroed := by
    unfold unknownZeroed
    cases c.windows <;> rfl
  unfold mergedWindows
  rw [mergeUnknownWindows_eq, mergeUnknownWindows_eq, appended_list, appended_list, hlist]
  exact foldl_mergeWindow_zeroed _ []

theorem BandCounters.merged (c : BandCounters) :
    Merged c.windows.list c.mergedWindows.windows.list := by
  unfold mergedWindows
  rw [mergeUnknownWindows_eq, appended_list]
  exact merged_foldl _

/-- A sum is not negative exactly when the entry the validator sees is not. -/
theorem BandCounters.totals_nonneg_iff (c : BandCounters) :
    (∀ u ∈ c.mergedWindows.windows.list, u.Unknown → 0 ≤ u.count.toInt) ↔
      ∀ window, 0 ≤ (unknownTotal c.windows.list window).toInt := by
  constructor
  · intro h window
    by_cases hsome : ∃ u ∈ c.mergedWindows.windows.list, u.Unknown ∧ u.window = window
    · obtain ⟨u, hu, hunknown, rfl⟩ := hsome
      rw [← c.merged.totals u hu hunknown]
      exact h u hu hunknown
    · rw [c.merged.total_eq_zero (fun u hu hunknown heq => hsome ⟨u, hu, hunknown, heq⟩)]
      exact le_of_eq rfl
  · intro h u hu hunknown
    rw [c.merged.totals u hu hunknown]
    exact h u.window

theorem BandCounters.mergedWindows_valid_iff (c : BandCounters) :
    c.mergedWindows.Valid ↔
      c.unknownZeroed.mergedWindows.Valid ∧
        ∀ window, 0 ≤ (unknownTotal c.windows.list window).toInt := by
  have hlist := c.unknownZeroed_list
  have hkeys : c.unknownZeroed.mergedWindows.windows.list.map WindowCount.key =
      c.mergedWindows.windows.list.map WindowCount.key := by
    rw [hlist, List.map_map]
    exact List.map_congr_left (fun w _ => w.zeroed_key)
  rw [← c.totals_nonneg_iff]
  constructor
  · intro h
    refine ⟨⟨h.band, h.totals, ?_, ?_, hkeys ▸ h.distinct⟩,
      fun u hu => (WindowCount.valid_iff_zeroed.mp (h.windows u hu)).2⟩
    · rw [hlist, List.length_map]
      exact h.length
    · rw [hlist]
      intro v hv
      obtain ⟨w, hw, rfl⟩ := List.mem_map.mp hv
      exact (WindowCount.valid_iff_zeroed.mp (h.windows w hw)).1
  · rintro ⟨h, htotals⟩
    refine ⟨h.band, h.totals, ?_, fun w hw => ?_, hkeys ▸ h.distinct⟩
    · have hlength := h.length
      rwa [hlist, List.length_map] at hlength
    · refine WindowCount.valid_iff_zeroed.mpr ⟨h.windows _ ?_, htotals w hw⟩
      rw [hlist]
      exact List.mem_map_of_mem hw

def NodeBudgetReport.unknownZeroed (r : NodeBudgetReport) : NodeBudgetReport :=
  { r with observation := { r.observation with
      counters := r.observation.counters.map (List.map BandCounters.unknownZeroed) } }

/-- The part of an observation's validity that is about its counters. -/
theorem NodeBudgetObservation.valid_counters_iff (o : NodeBudgetObservation)
    (cs : Slice BandCounters) :
    { o with counters := cs }.Valid ↔ { o with counters := none }.Valid ∧
      cs.list.length ≤ bands.length ∧ (∀ c ∈ cs.list, c.Valid) ∧
      (cs.list.map BandCounters.band).Nodup := by
  constructor
  · intro h
    exact ⟨{ h with
      counterCount := Nat.zero_le _
      counters := by simp
      countersDistinct := by simp }, h.counterCount, h.counters, h.countersDistinct⟩
  · rintro ⟨h, hcount, hcounters, hdistinct⟩
    exact { h with
      counterCount := hcount
      counters := hcounters
      countersDistinct := hdistinct }

/-- Validity of the merged report: the counts of unknown reason matter by their sums only. -/
theorem NodeBudgetReport.merged_valid_iff (r : NodeBudgetReport) :
    r.merged.observation.Valid ↔
      r.unknownZeroed.merged.observation.Valid ∧
        ∀ c ∈ r.observation.counters.list, ∀ window,
          0 ≤ (unknownTotal c.windows.list window).toInt := by
  have hmerged : (r.observation.counters.list.map BandCounters.mergedWindows).map
      BandCounters.band = r.observation.counters.list.map BandCounters.band := by
    rw [List.map_map]
    rfl
  have hzeroed : ((r.observation.counters.list.map BandCounters.unknownZeroed).map
      BandCounters.mergedWindows).map BandCounters.band =
      r.observation.counters.list.map BandCounters.band := by
    rw [List.map_map, List.map_map]
    rfl
  have hvalid : (∀ c ∈ r.observation.counters.list, c.mergedWindows.Valid) ↔
      (∀ c ∈ r.observation.counters.list, c.unknownZeroed.mergedWindows.Valid) ∧
        ∀ c ∈ r.observation.counters.list, ∀ window,
          0 ≤ (unknownTotal c.windows.list window).toInt := by
    rw [← forall₂_and]
    exact forall₂_congr (fun c _ => c.mergedWindows_valid_iff)
  have hleft : r.merged.observation.Valid ↔ _ :=
    NodeBudgetObservation.valid_counters_iff r.observation
      (r.observation.counters.map (List.map BandCounters.mergedWindows))
  have hright : r.unknownZeroed.merged.observation.Valid ↔ _ :=
    NodeBudgetObservation.valid_counters_iff r.observation
      ((r.observation.counters.map (List.map BandCounters.unknownZeroed)).map
        (List.map BandCounters.mergedWindows))
  rw [hleft, hright]
  simp only [Slice.list_map, hmerged, hzeroed, List.length_map, List.forall_mem_map, hvalid]
  tauto

/-- A report whose counts are merged parses exactly when what it decodes to is then valid. -/
theorem parseNodeBudgetReport_ok {value : GoString} {s : NodeBudgetReport} :
    parseNodeBudgetReport value = .ok s ↔
      ∃ r, decodeBudgetAnnotation NodeBudgetReport.goType value = .ok r ∧ s = r.merged ∧
        r.merged.observation.Valid := by
  unfold parseNodeBudgetReport
  rw [except_bind_ok]
  refine exists_congr (fun r => and_congr_right (fun hr => ?_))
  have hcurrent : r.merged.schema = budgetAnnotationSchema := by
    show r.schema = _
    exact decoded_schema hr
  simp only [except_bind_ok, Unique.exists_iff, PUnit.default_eq_unit, NodeBudgetReport.validate,
    refuseIf_ok, not_not, hcurrent, true_and, wrapped_ok, NodeBudgetObservation.validate_ok,
    Except.ok.injEq]
  rw [and_comm, eq_comm]

/-- Some windowed count is negative. -/
def NodeBudgetReport.CarriesNegative (r : NodeBudgetReport) : Prop :=
  ∃ c ∈ r.observation.counters.list, ∃ w ∈ c.windows.list, w.count.toInt < 0

/-- A text that carries a negative windowed count is refused. -/
def NegativeCountsRefused (value : GoString) : Prop :=
  ∀ r, decodeBudgetAnnotation NodeBudgetReport.goType value = .ok r → r.CarriesNegative →
    ∃ e, parseNodeBudgetReport value = .error e

/-- A negative count of a known reason is seen by the validator. -/
theorem NodeBudgetReport.negative_unknown {r : NodeBudgetReport}
    (h : r.merged.observation.Valid) {c : BandCounters} (hc : c ∈ r.observation.counters.list)
    {w : WindowCount} (hw : w ∈ c.windows.list) (hneg : w.count.toInt < 0) : w.Unknown := by
  by_contra hknown
  have hmem : c.mergedWindows ∈ r.merged.observation.counters.list := by
    unfold merged
    rw [Slice.list_map]
    exact List.mem_map_of_mem hc
  have hvalid := (h.counters _ hmem).windows w ((c.merged.known w hknown).mpr hw)
  exact absurd hvalid.count (not_le.mpr hneg)

/-- The texts with a negative count that are refused all the same: every one but those whose
negative counts have an unknown reason, whose sums of unknown counts are not negative in any
band and window, and that are valid with their unknown counts read as zero. -/
theorem negativeCountsRefused_iff (value : GoString) :
    NegativeCountsRefused value ↔
      ∀ r, decodeBudgetAnnotation NodeBudgetReport.goType value = .ok r →
        (∀ c ∈ r.observation.counters.list, ∀ w ∈ c.windows.list,
          w.Unknown → 0 ≤ w.count.toInt) ∨
        (∃ c ∈ r.observation.counters.list, ∃ window,
          (unknownTotal c.windows.list window).toInt < 0) ∨
        ¬r.unknownZeroed.merged.observation.Valid := by
  refine forall₂_congr (fun r hr => ?_)
  have haccepts : (∃ e, parseNodeBudgetReport value = .error e) ↔ ¬r.merged.observation.Valid := by
    constructor
    · rintro ⟨e, he⟩ hvalid
      rw [parseNodeBudgetReport_ok.mpr ⟨r, hr, rfl, hvalid⟩] at he
      cases he
    · intro hinvalid
      cases hparse : parseNodeBudgetReport value with
      | error e => exact ⟨e, rfl⟩
      | ok s =>
        obtain ⟨r', hr', -, hvalid⟩ := parseNodeBudgetReport_ok.mp hparse
        cases hr.symm.trans hr'
        exact absurd hvalid hinvalid
  rw [haccepts]
  constructor
  · intro h
    by_contra hnone
    rw [not_or, not_or, not_not] at hnone
    obtain ⟨hneg, htotals, hzeroed⟩ := hnone
    push Not at hneg htotals
    obtain ⟨c, hc, w, hw, -, hcount⟩ := hneg
    exact h ⟨c, hc, w, hw, hcount⟩ ((r.merged_valid_iff).mpr ⟨hzeroed, htotals⟩)
  · rintro h ⟨c, hc, w, hw, hneg⟩ hvalid
    obtain ⟨hzeroed, htotals⟩ := (r.merged_valid_iff).mp hvalid
    rcases h with h | ⟨d, hd, window, hd'⟩ | h
    · exact absurd (h c hc w hw (NodeBudgetReport.negative_unknown hvalid hc hw hneg))
        (not_le.mpr hneg)
    · exact absurd (htotals d hd window) (not_le.mpr hd')
    · exact h hzeroed

/-- Two reasons this release does not know, in one window. -/
def hiddenNegative : GoString :=
  lit "\x7b\"schema\":1,\"observedAt\":\"2026-01-01T00:00:00Z\",\"platform\":\"linux\"," ++
  lit "\"level\":\"ok\",\"counters\":[\x7b\"band\":\"critical\",\"windows\":[" ++
  lit "\x7b\"window\":\"1h\",\"reason\":\"a\",\"count\":-5\x7d," ++
  lit "\x7b\"window\":\"1h\",\"reason\":\"b\",\"count\":10\x7d]\x7d],\"linux\":\x7b\x7d\x7d"

/-- What it decodes to, before the counts are merged. -/
def hiddenReport : NodeBudgetReport where
  schema := 1
  observation := {
    observedAt := ⟨1767225600, ⟨0, by decide⟩, .localTime⟩
    platform := word .linux
    level := word .ok
    counters := some [{
      band := word .critical
      windows := some [⟨⟨lit "1h"⟩, word .unknown, -5⟩, ⟨⟨lit "1h"⟩, word .unknown, 10⟩] }]
    linux := some {} }

theorem hiddenNegative_accepted :
    decodeBudgetAnnotation NodeBudgetReport.goType hiddenNegative = .ok hiddenReport ∧
      hiddenReport.CarriesNegative ∧
      parseNodeBudgetReport hiddenNegative = .ok hiddenReport.merged ∧
      ¬NegativeCountsRefused hiddenNegative := by
  have hdecode : decodeBudgetAnnotation NodeBudgetReport.goType hiddenNegative =
      .ok hiddenReport := by decide +kernel
  have hnegative : hiddenReport.CarriesNegative :=
    ⟨_, List.mem_cons_self .., _, List.mem_cons_self .., by decide⟩
  have hparse : parseNodeBudgetReport hiddenNegative = .ok hiddenReport.merged := by
    decide +kernel
  refine ⟨hdecode, hnegative, hparse, fun h => ?_⟩
  obtain ⟨e, he⟩ := h _ hdecode hnegative
  rw [hparse] at he
  cases he

end K3smApis.Budget
