import K3smApis.LockUpdate

/-!
# Series of updates

What holds of the lock after any number of runs of `--update`, green or refused: every time
in it was answered by the proxy of one of the runs, a time stays with its line, and the check
of the lock comes down to the age check. `--modules` is one update from no lock.
-/
namespace K3smApis.Deps

theorem readLock_stripped {n : ℕ} {lines : List Text} {es : List LockEntry} {e : LockEntry}
    (h : readLockFrom n lines = .ok es) (he : e ∈ es) : Stripped e.2 := by
  induction lines generalizing n es with
  | nil =>
    cases h
    exact absurd he List.not_mem_nil
  | cons line lines ih =>
    simp only [readLockFrom, except_bind_ok] at h
    obtain ⟨x, hx, es', hes', hes⟩ := h
    cases hes
    rcases List.mem_append.mp he with hin | hin
    · rw [Option.mem_toList] at hin
      subst hin
      unfold lockLine at hx
      split_ifs at hx
      · cases hx
      · split at hx
        · cases hx
        · split at hx
          · cases hx
          · cases hx
            exact strip_stripped _
    · exact ih hes' hin

theorem oldEntries_stripped {lock : Text} {e : LockEntry} (h : e ∈ oldEntries (some lock)) :
    Stripped e.2 := by
  simp only [oldEntries, baseEntries, Option.map_some] at h
  cases hes : readLock (Lines.fileLines lock) with
  | error f => simp [hes] at h
  | ok es =>
    simp only [hes] at h
    exact readLock_stripped hes h

/-- The lock a series of runs leaves. -/
def afterUpdates (lockFile : Option Text) (runs : List UpdateRun) : Option Text :=
  runs.foldl UpdateRun.after lockFile

/-- A run over what `go list` prints, with the given digits. -/
structure UpdateRun.Sound (isDecimal : Char → Bool) (r : UpdateRun) : Prop where
  goList : IsGoList r.goList
  digits : r.world.isDecimal = isDecimal

/-- Where the time of a line came from: it is the mark of a filesystem replacement, or one
of the worlds answered it for the version that is built. -/
def Answered (isDecimal : Char → Bool) (worlds : List World) (e : LockEntry) : Prop :=
  IsGraphKey e.1 ∧ '\t' ∉ e.1 ∧ ∃ m, parseKey e.1 = some m ∧
    if m.isLocal then e.2 = localTime
    else ∃ w ∈ worlds, ∃ tm, w.proxy m.effectivePath m.effectiveVersion = some tm ∧
      (parseTime isDecimal tm).isSome = true ∧ e.2 = strip tm

/-- A lock that reads, with times that the worlds answered. -/
def AllAnswered (isDecimal : Char → Bool) (worlds : List World) (lockFile : Option Text) : Prop :=
  ∀ lock, lockFile = some lock → ∃ es, readLock (Lines.fileLines lock) = .ok es ∧
    ∀ e ∈ es, Answered isDecimal worlds e

theorem Answered.mono {isDecimal : Char → Bool} {ws ws' : List World} {e : LockEntry}
    (h : Answered isDecimal ws e) (hsub : ws ⊆ ws') : Answered isDecimal ws' e := by
  obtain ⟨hkey, htab, m, hm, h⟩ := h
  refine ⟨hkey, htab, m, hm, ?_⟩
  split_ifs at h ⊢
  · exact h
  · obtain ⟨w, hw, rest⟩ := h
    exact ⟨w, hsub hw, rest⟩

section Runs

variable {isDecimal : Char → Bool} (hdigits : DigitsSolid isDecimal)

include hdigits

/-- One run: a line keeps a time that was answered before, or gets one of this run. -/
theorem AllAnswered.after {ws : List World} {lockFile : Option Text} {r : UpdateRun}
    (h : AllAnswered isDecimal ws lockFile) (hr : r.Sound isDecimal) :
    AllAnswered isDecimal (ws ++ [r.world]) (r.after lockFile) := by
  intro lock hlock
  obtain ⟨world, g, srv, goList, exempt⟩ := r
  obtain ⟨hlist, hdec⟩ := hr
  dsimp only at hlist hdec
  subst hdec
  unfold UpdateRun.after at hlock
  cases hupdate : updateLock world lockFile (currentGraph goList) with
  | error f =>
    simp only [hupdate] at hlock
    obtain ⟨es, hes, hall⟩ := h lock hlock
    exact ⟨es, hes, fun e he => (hall e he).mono (List.subset_append_left ws _)⟩
  | ok u =>
    simp only [hupdate, Option.some.injEq] at hlock
    subst hlock
    obtain ⟨es, hes, -, hrec⟩ := updateLock_reads hdigits hlist.unhashed hupdate
    refine ⟨es, hes, fun e he => ?_⟩
    obtain ⟨hkey, htab, t, b, hr, ht⟩ := hrec e he
    cases hr with
    | @replaced m hm hl =>
      refine ⟨hkey, htab, m, hm, ?_⟩
      rw [if_pos hl, ht]
      decide
    | @kept m _ hm hl hold hparse =>
      -- the old lock had the line, so its time was answered before
      cases lockFile with
      | none => simp [oldEntries, baseEntries, timeOf] at hold
      | some old =>
        obtain ⟨es', hes', hall⟩ := h old rfl
        have hmem : (e.1, t) ∈ es' := oldEntries_eq hes' ▸ timeOf_mem hold
        obtain ⟨-, -, m', hm', hans⟩ := hall _ hmem
        rw [hm] at hm'
        cases hm'
        refine ⟨hkey, htab, m, hm, ?_⟩
        rw [if_neg (by simp [hl])] at hans ⊢
        obtain ⟨w, hw, tm, hp, htm, rfl⟩ := hans
        exact ⟨w, List.mem_append_left _ hw, tm, hp, htm,
          ht.trans (strip_stripped tm).strip_eq⟩
    | @fetched m _ hm hl hnone hp hparse =>
      refine ⟨hkey, htab, m, hm, ?_⟩
      rw [if_neg (by simp [hl])]
      exact ⟨world, by simp, t, hp, hparse, ht⟩

theorem allAnswered_afterUpdates {ws : List World} {lockFile : Option Text} {runs : List UpdateRun}
    (h : AllAnswered isDecimal ws lockFile) (hruns : ∀ r ∈ runs, r.Sound isDecimal) :
    AllAnswered isDecimal (ws ++ runs.map UpdateRun.world) (afterUpdates lockFile runs) := by
  induction runs generalizing ws lockFile with
  | nil => simpa [afterUpdates] using h
  | cons r runs ih =>
    have hstep := ih (h.after hdigits (hruns r List.mem_cons_self))
      (fun r' hr' => hruns r' (List.mem_cons_of_mem r hr'))
    simpa [afterUpdates] using hstep

/-- After any series of updates, green or refused, of any graphs and with any proxies, every
time in the lock was answered by the proxy of one of the runs for the version that is built,
or marks a filesystem replacement. -/
theorem update_provenance {runs : List UpdateRun} (hruns : ∀ r ∈ runs, r.Sound isDecimal)
    {lock : Text} (h : afterUpdates none runs = some lock) :
    ∃ es, readLock (Lines.fileLines lock) = .ok es ∧
      ∀ e ∈ es, ∃ m, parseKey e.1 = some m ∧
        if m.isLocal then e.2 = localTime
        else ∃ r ∈ runs, ∃ tm, r.world.proxy m.effectivePath m.effectiveVersion = some tm ∧
          (parseTime isDecimal tm).isSome = true ∧ e.2 = strip tm := by
  have hstart : AllAnswered isDecimal [] none := fun lock hlock => by cases hlock
  obtain ⟨es, hes, hall⟩ := allAnswered_afterUpdates hdigits hstart hruns lock h
  refine ⟨es, hes, fun e he => ?_⟩
  obtain ⟨-, -, m, hm, hans⟩ := hall e he
  refine ⟨m, hm, ?_⟩
  split_ifs at hans ⊢
  · exact hans
  · obtain ⟨w, hw, rest⟩ := hans
    rw [List.nil_append, List.mem_map] at hw
    obtain ⟨r, hr, rfl⟩ := hw
    exact ⟨r, hr, rest⟩

/-- One run: a parsed time stays with its line. -/
theorem timeOf_after {r : UpdateRun} (hr : r.Sound isDecimal) {k t : Text} {m : ModuleLine}
    (hm : parseKey k = some m) (hremote : m.isLocal = false)
    (ht : (parseTime isDecimal t).isSome = true) (hk : k ∈ graphKeys (currentGraph r.goList))
    {lock : Text} (h : timeOf (oldEntries (some lock)) k = some t) :
    ∃ lock', r.after (some lock) = some lock' ∧ timeOf (oldEntries (some lock')) k = some t := by
  obtain ⟨world, g, srv, goList, exempt⟩ := r
  obtain ⟨hlist, hdec⟩ := hr
  dsimp only at hlist hdec hk
  subst hdec
  unfold UpdateRun.after
  cases hupdate : updateLock world (some lock) (currentGraph goList) with
  | error f => exact ⟨lock, rfl, h⟩
  | ok u =>
    obtain ⟨written, hwritten, rfl⟩ := writes_of_updateLock hupdate
    have hread : readLock (Lines.fileLines (Updated.of written).lock) = .ok (readBack written) :=
      readLock_written hdigits (unhashed_graphKeys hlist.unhashed) hwritten
        (List.Subset.refl written)
    obtain ⟨t', b, hrec, htime⟩ := timeOf_readBack hwritten hk
    obtain ⟨rfl, -⟩ := hrec.unique (.kept hm hremote h ht)
    refine ⟨_, rfl, ?_⟩
    rw [oldEntries_eq hread, htime, (oldEntries_stripped (timeOf_mem h)).strip_eq]

/-- A time that the lock has for a remote version stays as it is through any series of
updates whose graphs all have the line, whatever the proxies answer later. -/
theorem update_keeps_times {lock k t : Text} {m : ModuleLine} (hm : parseKey k = some m)
    (hremote : m.isLocal = false) (ht : (parseTime isDecimal t).isSome = true)
    {runs : List UpdateRun} (hruns : ∀ r ∈ runs, r.Sound isDecimal)
    (hk : ∀ r ∈ runs, k ∈ graphKeys (currentGraph r.goList))
    (h : timeOf (oldEntries (some lock)) k = some t) :
    ∃ lock', afterUpdates (some lock) runs = some lock' ∧
      timeOf (oldEntries (some lock')) k = some t := by
  induction runs generalizing lock with
  | nil => exact ⟨lock, rfl, h⟩
  | cons r runs ih =>
    obtain ⟨lock', hafter, htime⟩ := timeOf_after hdigits (hruns r List.mem_cons_self) hm hremote
      ht (hk r List.mem_cons_self) h
    obtain ⟨last, hlast, hkept⟩ := ih (fun r' hr' => hruns r' (List.mem_cons_of_mem r hr'))
      (fun r' hr' => hk r' (List.mem_cons_of_mem r hr')) htime
    refine ⟨last, ?_, hkept⟩
    rw [← hlast, afterUpdates, afterUpdates, List.foldl_cons, hafter]

end Runs

section Check

variable {w : World} (hdigits : DigitsSolid w.isDecimal) {es : List LockEntry}
  (hes : ∀ e ∈ es, Answered w.isDecimal [w] e)

/-- The time that is read again for an entry. -/
def rereadTime (w : World) (keys : List Text) (e : LockEntry) : Option Text :=
  (planLine keys e).reread.bind fun q => w.proxy q.1 q.2

/-- What is read again is what the lock has. -/
theorem Answered.reread {keys : List Text} {e : LockEntry} (h : Answered w.isDecimal [w] e) :
    fetchLine w (planLine keys e) = .ok (e, rereadTime w keys e) ∨ '\t' ∈ e.2 := by
  obtain ⟨-, htab, m, hm, h⟩ := h
  by_cases htime : '\t' ∈ e.2
  · exact .inr htime
  left
  by_cases hskip : m.isLocal ∨ e.1 ∈ keys
  · have hplan : planLine keys e = ⟨e, none⟩ := by simp only [planLine, hm, if_pos hskip]
    simp [rereadTime, hplan, fetchLine, htab, htime]
  · have hplan : planLine keys e = ⟨e, some (m.effectivePath, m.effectiveVersion)⟩ := by
      simp only [planLine, hm, if_neg hskip]
    rw [not_or] at hskip
    rw [if_neg hskip.1] at h
    obtain ⟨w', hw', tm, hp, -, -⟩ := h
    rw [List.mem_singleton] at hw'
    subst hw'
    simp [rereadTime, hplan, fetchLine, htab, htime, hp]

theorem Answered.rereadTime_eq {keys : List Text} {e : LockEntry}
    (h : Answered w.isDecimal [w] e) {tm : Text} (ht : rereadTime w keys e = some tm) :
    (parseTime w.isDecimal tm).isSome = true ∧ e.2 = strip tm := by
  obtain ⟨-, -, m, hm, h⟩ := h
  by_cases hskip : m.isLocal ∨ e.1 ∈ keys
  · have hplan : planLine keys e = ⟨e, none⟩ := by simp only [planLine, hm, if_pos hskip]
    simp [rereadTime, hplan] at ht
  · have hplan : planLine keys e = ⟨e, some (m.effectivePath, m.effectiveVersion)⟩ := by
      simp only [planLine, hm, if_neg hskip]
    rw [not_or] at hskip
    rw [if_neg hskip.1] at h
    obtain ⟨w', hw', tm', hp, hparse, htime⟩ := h
    rw [List.mem_singleton] at hw'
    subst hw'
    rw [rereadTime, hplan, Option.bind_some, hp] at ht
    cases ht
    exact ⟨hparse, htime⟩

theorem Answered.stripped {e : LockEntry} (h : Answered w.isDecimal [w] e) : Stripped e.2 := by
  obtain ⟨-, -, m, -, h⟩ := h
  split_ifs at h
  · rw [h]
    exact localTime_solid.stripped
  · obtain ⟨-, -, tm, -, -, htime⟩ := h
    rw [htime]
    exact strip_stripped tm

include hdigits in
theorem Answered.noTab {e : LockEntry} (h : Answered w.isDecimal [w] e) : '\t' ∉ e.2 := by
  obtain ⟨-, -, m, -, h⟩ := h
  split_ifs at h
  · rw [h]
    decide
  · obtain ⟨-, -, tm, -, hparse, htime⟩ := h
    have hsolid := IsTime.solid hdigits (.inr hparse)
    rw [htime, IsTime.strip_eq hdigits (.inr hparse)]
    exact hsolid.notMem (by decide)

include hdigits hes in
/-- verify-times writes the lock again. -/
theorem verifyTimes_answered (keys : List Text) :
    ∃ verified, verifyTimes w (es.map (planLine keys)) = .ok verified ∧
      readLock verified = .ok es := by
  have hfetch : (es.map (planLine keys)).mapM (fetchLine w) =
      .ok (es.map fun e => (e, rereadTime w keys e)) := by
    rw [mapM_eq_ok, List.forall₂_map_left_iff, List.forall₂_map_right_iff, List.forall₂_same]
    intro e he
    exact (hes e he).reread.resolve_right ((hes e he).noTab hdigits)
  have hagree : (es.map fun e => (e, rereadTime w keys e)).filter
      (fun l => !timeAgrees w l) = [] := by
    rw [List.filter_eq_nil_iff]
    intro l hl
    obtain ⟨e, he, rfl⟩ := List.mem_map.mp hl
    cases ht : rereadTime w keys e with
    | none => simp [timeAgrees]
    | some tm =>
      obtain ⟨hparse, htime⟩ := (hes e he).rereadTime_eq ht
      obtain ⟨a, ha⟩ := Option.isSome_iff_exists.mp hparse
      simp [timeAgrees, htime, IsTime.parseTime_strip hparse, ha]
  refine ⟨header ++ es.map (fun e => entryLine (e.1, (rereadTime w keys e).getD e.2)), ?_, ?_⟩
  · simp only [verifyTimes, hfetch, ok_bind, hagree, List.map_map]
    rfl
  · have hline : ∀ e ∈ es,
        Reads [entryLine (e.1, (rereadTime w keys e).getD e.2)] [e] := by
      intro e he n
      have htime : strip ((rereadTime w keys e).getD e.2) = e.2 := by
        cases ht : rereadTime w keys e with
        | none => exact (hes e he).stripped.strip_eq
        | some tm => exact ((hes e he).rereadTime_eq ht).2.symm
      have hread := (hes e he).1.lockLine_eq ((rereadTime w keys e).getD e.2)
      rw [htime] at hread
      exact Reads.cons hread Reads.nil n
    have hall := reads_header.append (Reads.flatMap hline) 1
    rw [List.nil_append, List.map_id'] at hall
    rwa [← List.map_eq_flatMap] at hall

end Check

/-- A lock that comes from updates passes the re-read of the check whatever the base, as long
as the proxy answers the same: the check is then the age check of the lock's own times. -/
theorem check_after_updates {w : World} (hdigits : DigitsSolid w.isDecimal)
    {runs : List UpdateRun} (hruns : ∀ r ∈ runs, r.Sound w.isDecimal)
    (hproxy : ∀ r ∈ runs, r.world.proxy = w.proxy) {lock : Text}
    (h : afterUpdates none runs = some lock) (base : Option (List Text)) (exemptFile : List Text) :
    cooldownVerify w base (Lines.fileLines lock) exemptFile =
      cooldown w exemptFile (Lines.fileLines lock) := by
  have hstart : AllAnswered w.isDecimal [] none := fun lock hlock => by cases hlock
  obtain ⟨es, hes, hall⟩ := allAnswered_afterUpdates hdigits hstart hruns lock h
  have hanswered : ∀ e ∈ es, Answered w.isDecimal [w] e := by
    intro e he
    obtain ⟨hkey, htab, m, hm, hans⟩ := hall e he
    refine ⟨hkey, htab, m, hm, ?_⟩
    split_ifs at hans ⊢
    · exact hans
    · obtain ⟨w', hw', tm, hp, hparse, htime⟩ := hans
      rw [List.nil_append, List.mem_map] at hw'
      obtain ⟨r, hr, rfl⟩ := hw'
      exact ⟨w, List.mem_singleton_self w, tm, hproxy r hr ▸ hp, hparse, htime⟩
  obtain ⟨verified, hverified, hread⟩ := verifyTimes_answered hdigits hanswered (baseKeys base)
  have hplan : verifyPlan base (Lines.fileLines lock) =
      .ok (es.map (planLine (baseKeys base))) := by
    simp only [verifyPlan, hes]
  simp only [cooldownVerify, hplan, ok_bind, hverified, cooldown, hread, hes]

/-- A check for malicious packages that passes has seen every page of every version. -/
theorem Serves.clean {g : Grep} {srv : Server} {first : Query → Page} {next : Query → Text → Page}
    (hs : Serves srv first next) {size : ℕ} (hsize : 0 < size) {lock : List Text}
    {es : List LockEntry} (hlock : readLock lock = .ok es) (hkeys : ∀ e ∈ es, nul ∉ e.1)
    (hnul : NulFree first next) {s : Session} (hok : maliciousCheck g srv size lock = .ok s)
    {e : LockEntry} (he : e ∈ es) {q : Query} (hq : Built e q) {j : ℕ} {p : Page}
    (hp : chain first next q j = some p) {i : Text} (hi : i ∈ p.ids) : ¬"MAL-".toList <+: i := by
  intro hmal
  have hasked : q ∈ queries es := ((queries_spec es).2 q).mpr ⟨e, he, hq⟩
  have hpass : ¬Failed (maliciousCheck g srv size lock) := by
    rintro ⟨f, s', hf⟩
    rw [hok] at hf
    cases hf
  obtain ⟨m, s', -, -, -, hreached, -, hend⟩ :=
    hs.maliciousCheck_run (g := g) hsize hlock hkeys hnul
  rcases hend with ⟨hpending, hverdict⟩ | ⟨-, -, hfailed⟩
  · have hj := le_of_chain_eq_some hp (hreached.chain_eq_none hpending hasked)
    exact hpass (hverdict.mpr (hreached.found q hasked j hj p hp (malIds_ne_nil.mpr ⟨i, hi, hmal⟩)))
  · exact hpass hfailed

/-- The same graph, with a proxy that records 1 January 2020. -/
def backdatedRun : UpdateRun := { depRun with world := oldWorld }

theorem updateLock_again_depList {w : World} (h : w.isDecimal = Char.isDigit) :
    updateLock w (some depUpdated.lock) (currentGraph depList) =
      .ok ⟨depUpdated.lock, lockText []⟩ := by
  obtain ⟨es, hes, hagain, -⟩ :=
    updateLock_again isDigit_solid depList_isGoList updateLock_depList h
  obtain rfl : [depEntry, localEntry] = es := Except.ok.inj (readLock_depUpdated.symm.trans hes)
  exact hagain

theorem depRun_sound : depRun.Sound Char.isDigit := ⟨depList_isGoList, rfl⟩

theorem backdatedRun_sound : backdatedRun.Sound Char.isDigit := ⟨depList_isGoList, rfl⟩

theorem after_depRun : depRun.after none = some depUpdated.lock := by
  rw [UpdateRun.after, show updateLock depRun.world none (currentGraph depRun.goList) = _ from
    updateLock_depList]

theorem after_again {r : UpdateRun} (h : r.world.isDecimal = Char.isDigit)
    (hlist : r.goList = depList) : r.after (some depUpdated.lock) = some depUpdated.lock := by
  rw [UpdateRun.after, hlist, updateLock_again_depList h]

theorem afterUpdates_depRun : afterUpdates none [depRun, backdatedRun] = some depUpdated.lock := by
  rw [afterUpdates, List.foldl_cons, List.foldl_cons, List.foldl_nil, after_depRun,
    after_again rfl rfl]

theorem update_provenance_depRun :
    ∃ es, readLock (Lines.fileLines depUpdated.lock) = .ok es ∧ ∀ e ∈ es, ∃ m,
      parseKey e.1 = some m ∧ (m.isLocal = true ∨ e.2 ∈ ["2026-11-10T00:00:00Z".toList,
        "2020-01-01T00:00:00Z".toList]) := by
  obtain ⟨es, hes, hall⟩ := update_provenance isDigit_solid
    (List.forall_mem_cons.mpr ⟨depRun_sound, List.forall_mem_singleton.mpr backdatedRun_sound⟩)
    afterUpdates_depRun
  refine ⟨es, hes, fun e he => ?_⟩
  obtain ⟨m, hm, hans⟩ := hall e he
  refine ⟨m, hm, ?_⟩
  split_ifs at hans with hl
  · exact .inl hl
  · obtain ⟨r, hr, tm, hp, -, htime⟩ := hans
    rw [htime]
    rcases List.mem_pair.mp hr with rfl | rfl
    · obtain rfl : "2026-11-10T00:00:00Z".toList = tm := Option.some.inj hp
      exact .inr (by decide +kernel)
    · obtain rfl : "2020-01-01T00:00:00Z".toList = tm := Option.some.inj hp
      exact .inr (by decide +kernel)

theorem update_keeps_times_backdatedRun :
    ∃ lock, afterUpdates (some depUpdated.lock) [backdatedRun, depRun] = some lock ∧
      timeOf (oldEntries (some lock)) depEntry.1 = some depEntry.2 := by
  have hkey : parseKey depEntry.1 = some ⟨"k3sm.io/dep".toList, "v1.0.0".toList,
      "k3sm.io/dep".toList, "v1.0.0".toList, false⟩ := by decide +kernel
  have hgraph : depEntry.1 ∈ graphKeys (currentGraph depList) := by
    rw [graphKeys_depList]
    exact List.mem_cons_self
  have hold : timeOf (oldEntries (some depUpdated.lock)) depEntry.1 = some depEntry.2 := by
    rw [oldEntries_eq readLock_depUpdated]
    decide +kernel
  exact update_keeps_times isDigit_solid hkey rfl (by decide +kernel)
    (List.forall_mem_cons.mpr ⟨backdatedRun_sound, List.forall_mem_singleton.mpr depRun_sound⟩)
    (List.forall_mem_cons.mpr ⟨hgraph, List.forall_mem_singleton.mpr hgraph⟩) hold

theorem check_after_updates_depRun :
    cooldownVerify youngWorld none (Lines.fileLines depUpdated.lock) [] =
      .error (.cooldown [depEntry]) := by
  have hruns : afterUpdates none [depRun, depRun] = some depUpdated.lock := by
    rw [afterUpdates, List.foldl_cons, List.foldl_cons, List.foldl_nil, after_depRun,
      after_again rfl rfl]
  rw [check_after_updates (w := youngWorld) isDigit_solid
    (List.forall_mem_cons.mpr ⟨depRun_sound, List.forall_mem_singleton.mpr depRun_sound⟩)
    (List.forall_mem_cons.mpr ⟨rfl, List.forall_mem_singleton.mpr rfl⟩) hruns none []]
  exact cooldown_depUpdated

end K3smApis.Deps
