import K3smApis.WindowMerge

/-!
# What merging makes of valid counts

For counts that are not negative the merge is the saturating sum per window, independent
of the order of the counts, and a second merge changes nothing.
-/
namespace K3smApis.Budget
open Check GoJson

/-- The largest count. -/
def maxCount : ℤ := Int64.maxValue.toInt

theorem addCount_toInt {a b : Int64} (ha : 0 ≤ a.toInt) (hb : 0 ≤ b.toInt) :
    (addCount a b).toInt = min maxCount (a.toInt + b.toInt) := by
  have hmax : Int64.maxValue.toInt = 2 ^ 63 - 1 := by decide
  have hzero : (0 : Int64).toInt = 0 := by decide
  have hlta := a.toInt_lt
  have hltb := b.toInt_lt
  have hroom : (Int64.maxValue - b).toInt = 2 ^ 63 - 1 - b.toInt := by
    rw [Int64.toInt_sub, hmax, Int.bmod_eq_of_le (by omega) (by omega)]
  have hover : (0 < b ∧ Int64.maxValue - b < a) ↔ 0 < b.toInt ∧ 2 ^ 63 - 1 - b.toInt < a.toInt := by
    rw [Int64.lt_iff_toInt_lt, Int64.lt_iff_toInt_lt, hzero, hroom]
  unfold addCount maxCount
  split_ifs with h
  · rw [hover] at h
    omega
  · rw [hover] at h
    rw [Int64.toInt_add, Int.bmod_eq_of_le (by omega) (by omega)]
    omega

/-- The counts of unknown reason of one window. -/
def unknownCounts (ws : List WindowCount) (window : Wire CounterWindow) : List ℤ :=
  (ws.filter (fun w => w.Unknown ∧ w.window = window)).map (fun w => w.count.toInt)

/-- Once saturated, a sum of counts that are not negative stays so. -/
theorem foldl_addCount_toInt {ws : List WindowCount} (hws : ∀ w ∈ ws, 0 ≤ w.count.toInt)
    {n : Int64} (hn : 0 ≤ n.toInt) :
    (ws.foldl (fun m w => addCount m w.count) n).toInt =
      min maxCount (n.toInt + (ws.map (fun w => w.count.toInt)).sum) := by
  induction ws generalizing n with
  | nil =>
    have hmax : maxCount = 2 ^ 63 - 1 := by decide
    have hlt := n.toInt_lt
    rw [List.foldl_nil, List.map_nil, List.sum_nil]
    omega
  | cons w ws ih =>
    obtain ⟨hw, hws⟩ := List.forall_mem_cons.mp hws
    have hadd := addCount_toInt hn hw
    have hmax : maxCount = 2 ^ 63 - 1 := by decide
    have hsum : 0 ≤ (ws.map (fun w => w.count.toInt)).sum :=
      List.sum_nonneg (by simpa using hws)
    rw [List.foldl_cons, ih hws (by omega), hadd, List.map_cons, List.sum_cons]
    omega

theorem unknownTotal_toInt {ws : List WindowCount} (hws : ∀ w ∈ ws, w.Unknown → 0 ≤ w.count.toInt)
    (window : Wire CounterWindow) :
    (unknownTotal ws window).toInt = min maxCount (unknownCounts ws window).sum := by
  have hnonneg : ∀ w ∈ ws.filter (fun w => w.Unknown ∧ w.window = window), 0 ≤ w.count.toInt := by
    intro w hw
    obtain ⟨hmem, hboth⟩ := List.mem_filter.mp hw
    exact hws w hmem (of_decide_eq_true hboth).1
  have hzero : (0 : Int64).toInt = 0 := by decide
  unfold unknownTotal unknownCounts
  rw [foldl_addCount_toInt hnonneg (le_of_eq hzero.symm), hzero, zero_add]

/-- The counts that keep a place: those of a known reason, and the first of unknown reason
of each window that is not in `seen`. -/
def kept : List (Wire CounterWindow) → List WindowCount → List WindowCount
  | _, [] => []
  | seen, w :: ws =>
    if w.Unknown then
      if w.window ∈ seen then kept seen ws else w :: kept (w.window :: seen) ws
    else w :: kept seen ws

/-- The windows that have an entry of unknown reason. -/
def unknownWindows (out : List WindowCount) : List (Wire CounterWindow) :=
  (out.filter (fun u => u.Unknown)).map WindowCount.window

theorem mem_unknownWindows {out : List WindowCount} {window : Wire CounterWindow} :
    window ∈ unknownWindows out ↔ ∃ u ∈ out, u.Unknown ∧ u.window = window := by
  simp [unknownWindows, and_assoc]

theorem kept_congr {seen seen' : List (Wire CounterWindow)} (h : ∀ x, x ∈ seen ↔ x ∈ seen')
    (ws : List WindowCount) : kept seen ws = kept seen' ws := by
  induction ws generalizing seen seen' with
  | nil => rfl
  | cons w ws ih =>
    have hcons : ∀ x, x ∈ w.window :: seen ↔ x ∈ w.window :: seen' := by
      intro x
      rw [List.mem_cons, List.mem_cons, h]
    simp only [kept, h w.window, ih h, ih hcons]

theorem kept_sublist (seen : List (Wire CounterWindow)) (ws : List WindowCount) :
    (kept seen ws).Sublist ws := by
  induction ws generalizing seen with
  | nil => exact .slnil
  | cons w ws ih =>
    rw [kept]
    split_ifs
    · exact (ih seen).cons w
    · exact (ih _).cons_cons w
    · exact (ih seen).cons_cons w

/-- The loop appends the kept counts, one entry each. -/
theorem foldl_mergeWindow_keys (ws out : List WindowCount) :
    (ws.foldl mergeWindow out).map WindowCount.key =
      (out ++ kept (unknownWindows out) ws).map WindowCount.key := by
  induction ws generalizing out with
  | nil => simp [kept]
  | cons w ws ih =>
    rw [List.foldl_cons, ih]
    rcases mergeWindow_cases out w with ⟨hw, heq⟩ | ⟨hw, hfresh, heq⟩ |
      ⟨hw, a, u, b, rfl, hu, hwindow, heq⟩
    · have hsame : unknownWindows (out ++ [w]) = unknownWindows out := by
        simp [unknownWindows, hw]
      rw [heq, hsame, kept, if_neg hw, List.append_assoc, List.singleton_append]
    · have hnew : w.window ∉ unknownWindows out := by
        rw [mem_unknownWindows]
        rintro ⟨u, hu, hunknown, hwindow⟩
        exact hfresh u hu hunknown hwindow
      have hseen : ∀ x, x ∈ unknownWindows (out ++ [w]) ↔ x ∈ w.window :: unknownWindows out := by
        intro x
        simp [unknownWindows, hw, or_comm]
      rw [heq, kept_congr hseen, kept, if_pos hw, if_neg hnew, List.append_assoc,
        List.singleton_append]
    · have hold : w.window ∈ unknownWindows (a ++ u :: b) :=
        mem_unknownWindows.mpr ⟨u, by simp, hu, hwindow⟩
      have hu' : ({ u with count := addCount u.count w.count } : WindowCount).Unknown := hu
      have hsame : unknownWindows (a ++ { u with count := addCount u.count w.count } :: b) =
          unknownWindows (a ++ u :: b) := by
        simp [unknownWindows, hu, hu']
      rw [heq, hsame, kept, if_pos hw, if_pos hold]
      simp [WindowCount.key]

/-- The counts of a known reason are kept, in their order. -/
theorem foldl_mergeWindow_known (ws out : List WindowCount) :
    (ws.foldl mergeWindow out).filter (fun u => ¬u.Unknown) =
      out.filter (fun u => ¬u.Unknown) ++ ws.filter (fun u => ¬u.Unknown) := by
  induction ws generalizing out with
  | nil => simp
  | cons w ws ih =>
    rw [List.foldl_cons, ih]
    rcases mergeWindow_cases out w with ⟨hw, heq⟩ | ⟨hw, -, heq⟩ |
      ⟨hw, a, u, b, rfl, hu, -, heq⟩
    · simp [heq, hw]
    · simp [heq, hw]
    · have hu' : ({ u with count := addCount u.count w.count } : WindowCount).Unknown := hu
      simp [heq, hw, hu, hu']

/-- Counts with one entry of unknown reason per window are left as they are. -/
theorem foldl_mergeWindow_of_single {ws out : List WindowCount}
    (h : (out ++ ws).Pairwise (fun u v => u.Unknown → v.Unknown → u.window ≠ v.window)) :
    ws.foldl mergeWindow out = out ++ ws := by
  induction ws generalizing out with
  | nil => simp
  | cons w ws ih =>
    have hstep : mergeWindow out w = out ++ [w] := by
      rcases mergeWindow_cases out w with ⟨-, heq⟩ | ⟨-, -, heq⟩ |
        ⟨hw, a, u, b, rfl, hu, hwindow, -⟩
      · exact heq
      · exact heq
      · have hapart := (List.pairwise_append.mp h).2.2 u (by simp) w (by simp)
        exact absurd hwindow (hapart hu hw)
    have h' : ((out ++ [w]) ++ ws).Pairwise
        (fun u v => u.Unknown → v.Unknown → u.window ≠ v.window) := by
      rwa [List.append_assoc, List.singleton_append]
    rw [List.foldl_cons, hstep, ih h', List.append_assoc, List.singleton_append]

section Merge

variable (ws : Slice WindowCount)

theorem mergeUnknownWindows_merged : Merged ws.list (mergeUnknownWindows ws).list := by
  rw [mergeUnknownWindows_eq, appended_list]
  exact merged_foldl _

theorem mergeUnknownWindows_keys :
    (mergeUnknownWindows ws).list.map WindowCount.key = (kept [] ws.list).map WindowCount.key := by
  rw [mergeUnknownWindows_eq, appended_list, foldl_mergeWindow_keys]
  rfl

theorem mergeUnknownWindows_known :
    (mergeUnknownWindows ws).list.filter (fun u => ¬u.Unknown) =
      ws.list.filter (fun u => ¬u.Unknown) := by
  rw [mergeUnknownWindows_eq, appended_list, foldl_mergeWindow_known]
  simp

theorem mergeUnknownWindows_idem :
    mergeUnknownWindows (mergeUnknownWindows ws) = mergeUnknownWindows ws := by
  have hsingle := (mergeUnknownWindows_merged ws).single
  have hfold : (mergeUnknownWindows ws).list.foldl mergeWindow [] =
      [] ++ (mergeUnknownWindows ws).list := foldl_mergeWindow_of_single (by simpa using hsingle)
  rw [mergeUnknownWindows_eq, hfold, List.nil_append, mergeUnknownWindows_eq, appended_list]

/-- One entry of unknown reason per window that has a count of one. -/
theorem mergeUnknownWindows_one (window : Wire CounterWindow) :
    ((mergeUnknownWindows ws).list.filter (fun u => u.Unknown ∧ u.window = window)).length =
      if ∃ w ∈ ws.list, w.Unknown ∧ w.window = window then 1 else 0 := by
  have hmerged := mergeUnknownWindows_merged ws
  -- two entries of one window cannot both be there
  have hle : ((mergeUnknownWindows ws).list.filter
      (fun u => u.Unknown ∧ u.window = window)).length ≤ 1 := by
    have hpairs := hmerged.single.filter (fun u => decide (u.Unknown ∧ u.window = window))
    match hfilter : (mergeUnknownWindows ws).list.filter
        (fun u => u.Unknown ∧ u.window = window) with
    | [] => exact hfilter ▸ Nat.zero_le 1
    | [_] => exact hfilter ▸ le_refl 1
    | u :: v :: rest =>
      have hmem : ∀ x ∈ u :: v :: rest, x.Unknown ∧ x.window = window := by
        intro x hx
        rw [← hfilter] at hx
        exact of_decide_eq_true (List.mem_filter.mp hx).2
      obtain ⟨hu, hu'⟩ := hmem u (by simp)
      obtain ⟨hv, hv'⟩ := hmem v (by simp)
      rw [hfilter] at hpairs
      exact absurd (hu'.trans hv'.symm) ((List.pairwise_cons.mp hpairs).1 v (by simp) hu hv)
  have hpos : 0 < ((mergeUnknownWindows ws).list.filter
      (fun u => u.Unknown ∧ u.window = window)).length ↔
      ∃ w ∈ ws.list, w.Unknown ∧ w.window = window := by
    rw [List.length_pos_iff_exists_mem]
    constructor
    · rintro ⟨u, hu⟩
      obtain ⟨hmem, hboth⟩ := List.mem_filter.mp hu
      obtain ⟨hunknown, hwindow⟩ := of_decide_eq_true hboth
      have hkey : u.key ∈ (kept [] ws.list).map WindowCount.key :=
        mergeUnknownWindows_keys ws ▸ List.mem_map_of_mem hmem
      obtain ⟨w, hw, heq⟩ := List.mem_map.mp hkey
      obtain ⟨hwindow', hreason⟩ : w.window = u.window ∧ w.reason = u.reason := by
        simpa [WindowCount.key] using heq
      exact ⟨w, (kept_sublist [] ws.list).subset hw, hreason.trans hunknown,
        hwindow'.trans hwindow⟩
    · rintro ⟨w, hw, hunknown, rfl⟩
      obtain ⟨u, hu, hu'⟩ := hmerged.covers w hw hunknown
      exact ⟨u, List.mem_filter.mpr ⟨hu, decide_eq_true hu'⟩⟩
  split_ifs with hsome
  · have := hpos.mpr hsome
    omega
  · have := mt hpos.mp hsome
    omega

/-- Keys of known reason that are distinct stay so, and an unknown one has its own window. -/
theorem mergeUnknownWindows_distinct
    (h : ((ws.list.filter (fun u => ¬u.Unknown)).map WindowCount.key).Nodup) :
    ((mergeUnknownWindows ws).list.map WindowCount.key).Nodup := by
  have hsingle := (mergeUnknownWindows_merged ws).single
  rw [← mergeUnknownWindows_known ws, List.Nodup, List.pairwise_map, List.pairwise_filter] at h
  rw [List.Nodup, List.pairwise_map]
  refine (h.and hsingle).imp (fun {u v} hboth heq => ?_)
  obtain ⟨hwindow, hreason⟩ : u.window = v.window ∧ u.reason = v.reason := by
    simpa [WindowCount.key] using heq
  by_cases hu : u.Unknown
  · exact hboth.2 hu (hreason.symm.trans hu) hwindow
  · have hv : ¬v.Unknown := fun hv => hu (hreason.trans hv)
    exact hboth.1 (by simpa using hu) (by simpa using hv) heq

end Merge

/-- `mergeUnknownWindows` on counts that are not negative: counts of a known reason keep
their order; a window has one entry of unknown reason if it had any; each entry stands where
the first count it is made of stood; its count is the sum, at most the largest int64, in
whatever order the counts came; a second merge changes nothing; keys stay distinct. -/
theorem mergeUnknownWindows_spec (ws : Slice WindowCount) (hws : ∀ w ∈ ws.list, 0 ≤ w.count.toInt) :
    (mergeUnknownWindows ws).list.filter (fun u => ¬u.Unknown) =
      ws.list.filter (fun u => ¬u.Unknown) ∧
    (∀ window,
      ((mergeUnknownWindows ws).list.filter (fun u => u.Unknown ∧ u.window = window)).length =
        if ∃ w ∈ ws.list, w.Unknown ∧ w.window = window then 1 else 0) ∧
    (mergeUnknownWindows ws).list.map WindowCount.key = (kept [] ws.list).map WindowCount.key ∧
    (∀ u ∈ (mergeUnknownWindows ws).list, u.Unknown →
      u.count.toInt = min maxCount (unknownCounts ws.list u.window).sum) ∧
    (∀ vs : Slice WindowCount,
      (ws.list.filter (fun w => w.Unknown)).Perm (vs.list.filter (fun w => w.Unknown)) →
      ∀ u ∈ (mergeUnknownWindows ws).list, ∀ v ∈ (mergeUnknownWindows vs).list,
        u.Unknown → v.Unknown → u.window = v.window → u.count = v.count) ∧
    mergeUnknownWindows (mergeUnknownWindows ws) = mergeUnknownWindows ws ∧
    (((ws.list.filter (fun u => ¬u.Unknown)).map WindowCount.key).Nodup →
      ((mergeUnknownWindows ws).list.map WindowCount.key).Nodup) := by
  have hcount : ∀ u ∈ (mergeUnknownWindows ws).list, u.Unknown →
      u.count.toInt = min maxCount (unknownCounts ws.list u.window).sum := by
    intro u hu hunknown
    rw [(mergeUnknownWindows_merged ws).totals u hu hunknown]
    exact unknownTotal_toInt (fun w hw _ => hws w hw) u.window
  refine ⟨mergeUnknownWindows_known ws, mergeUnknownWindows_one ws, mergeUnknownWindows_keys ws,
    hcount, ?_, mergeUnknownWindows_idem ws, mergeUnknownWindows_distinct ws⟩
  intro vs hperm u hu v hv hunknown hv' hwindow
  have hvs : ∀ w ∈ vs.list, w.Unknown → 0 ≤ w.count.toInt := by
    intro w hw hw'
    have hmem := hperm.mem_iff.mpr (List.mem_filter.mpr ⟨hw, decide_eq_true hw'⟩)
    exact hws w (List.mem_of_mem_filter hmem)
  have hsum : (unknownCounts ws.list u.window).sum = (unknownCounts vs.list v.window).sum := by
    rw [hwindow]
    refine (List.Perm.map _ ?_).sum_eq
    have hfilter : ∀ l : List WindowCount,
        l.filter (fun w => w.Unknown ∧ w.window = v.window) =
          (l.filter (fun w => w.Unknown)).filter (fun w => w.window = v.window) := by
      intro l
      rw [List.filter_filter]
      simp [and_comm]
    rw [hfilter, hfilter]
    exact hperm.filter _
  apply Int64.toInt_inj.mp
  rw [hcount u hu hunknown, (mergeUnknownWindows_merged vs).totals v hv hv', hsum,
    unknownTotal_toInt hvs]

/-- Two reasons of one window on both sides of a known one. -/
def mixedWindows : Slice WindowCount :=
  some [⟨word .window1h, word .unknown, 4⟩, ⟨word .window1h, word .eviction, 2⟩,
    ⟨word .window1h, word .unknown, 3⟩]

theorem mergeUnknownWindows_spec_mixed :
    (mergeUnknownWindows mixedWindows).list.map WindowCount.key =
      (kept [] mixedWindows.list).map WindowCount.key :=
  (mergeUnknownWindows_spec mixedWindows (by decide)).2.2.1

end K3smApis.Budget
