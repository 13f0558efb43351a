import K3smApis.SeqlockTakeover

/-!
# The notify word

`Publish` bumps notifyEpoch after its even seq store, and only when the key it compares
has changed since the writer's last publication or the writer has none. A writer that
dies between the two stores leaves the bump undone; its successor has no last
publication, so the successor's first one always bumps.
-/
namespace K3smApis.Budget
open ByteImage AtomicProgram PageWriter

/-- The rungs and then the releases, as values of a signal. -/
def ladderValues : List SignalValue :=
  [.warnThreshold, .admitStopThreshold, .criticalThreshold, .evictSoftThreshold,
    .evictHardThreshold, .warnRelease, .admitStopRelease, .criticalRelease, .evictSoftRelease,
    .evictHardRelease]

/-- Rung or release `j` of slot `i`; a missing slot has none. -/
def ladderAt (s : PageSnapshot) (i : Fin maxPageSignals) (j : Fin 10) : Option Int64 :=
  (signalAt s i).bind (fun g => (g.ladder[j.val]?).join)

/-- The encoder refuses a rung or release that equals the sentinel. -/
theorem Carried.ladderAt_ne {s : PageSnapshot} (h : Carried s) (i : Fin maxPageSignals)
    (j : Fin 10) : ladderAt s i j ≠ some pageAbsent := by
  intro habsent
  obtain ⟨g, hg, hval⟩ := Option.bind_eq_some_iff.mp habsent
  have hladder : g.ladder = ladderValues.map (fun v => v.get g) := rfl
  rw [hladder, List.getElem?_map] at hval
  obtain ⟨v, -, hv⟩ : ∃ v, ladderValues[j.val]? = some v ∧ v.get g = some pageAbsent := by
    cases hj : ladderValues[j.val]? with
    | none => simp [hj] at hval
    | some v => exact ⟨v, rfl, by simpa [hj] using hval⟩
  have hcarries : (slotWord (fun g => i64Word (v.get g)) (signalAt s i)).2 = true :=
    h.fields (.signal i v)
  rw [hg] at hcarries
  simp [slotWord, hv, i64Word] at hcarries

/-- A sentinel no present value equals tells the optional values apart. -/
theorem getD_inj {α : Type} {d : α} {o o' : Option α} (h : o ≠ some d) (h' : o' ≠ some d) :
    o.getD d = o'.getD d ↔ o = o' := by
  cases o with
  | none =>
    cases o' with
    | none => simp
    | some b => simpa [eq_comm] using h'
  | some a =>
    cases o' with
    | none => simpa using h
    | some b => simp

/-- On accepted snapshots `PageNotifyDue` is a change of the level, of admit, of the
generation or of some optional rung or release. -/
theorem pageNotifyDue_iff {prev next : PageSnapshot} (hp : Carried prev) (hn : Carried next) :
    pageNotifyDue (some prev) next = true ↔
      prev.level ≠ next.level ∨ prev.admits ≠ next.admits ∨ prev.generation ≠ next.generation ∨
        ∃ i j, ladderAt prev i j ≠ ladderAt next i j := by
  have hladder (i j) := getD_inj (hp.ladderAt_ne i j) (hn.ladderAt_ne i j)
  have hkey : notifyKeyOf prev = notifyKeyOf next ↔
      prev.level = next.level ∧ prev.admits = next.admits ∧ prev.generation = next.generation ∧
        ∀ i j, ladderAt prev i j = ladderAt next i j := by
    simp only [notifyKeyOf, PageNotifyKey.mk.injEq, funext_iff, ← hladder]
    rfl
  rw [pageNotifyDue, decide_eq_true_eq, ne_eq, hkey]
  grind

section Stores

variable {w : PageWriter} {s : PageSnapshot} {scratch : Page}

/-- No body word is below the body. -/
theorem notMem_bodyStores {off : ℕ} {v : UInt64} (h : off < pageHeaderSize) :
    (off, v) ∉ bodyStores scratch := by
  intro hmem
  have hle := mem_bodyStores hmem
  dsimp only at hle
  omega

/-- The notify word is the last store of a publication. -/
theorem notify_notMem_past {past : List (ℕ × UInt64)} {off : ℕ} {v : UInt64} (a : UInt64)
    (h : PublishStore w s scratch past off v) : (pageNotifyEpochOffset, a) ∉ past := by
  have hne : pageNotifyEpochOffset ≠ pageSeqOffset := by decide
  have hbody : (pageNotifyEpochOffset, a) ∉ bodyStores scratch := notMem_bodyStores (by decide)
  cases h with
  | odd => simp
  | @body past _ _ hpre _ =>
    have hpast : (pageNotifyEpochOffset, a) ∉ past := fun hmem => hbody (hpre.subset hmem)
    simp [hne, hpast]
  | even | epoch => simp [hne, hbody]

theorem notify_mem_stores (m : PageWords) (hw : w.resumed = true)
    (hs : encodePage s = .ok scratch) :
    (pageNotifyEpochOffset, w.epoch + 1) ∈ (w.publish s).stores m ↔ w.due s = true := by
  have hne : pageNotifyEpochOffset ≠ pageSeqOffset := by decide
  have hbody : (pageNotifyEpochOffset, w.epoch + 1) ∉ bodyStores scratch :=
    notMem_bodyStores (by decide)
  rw [stores_publish w m hw hs]
  cases w.due s <;> simp [hne, hbody]

end Stores

/-- The page and its writer agree on the notify word. -/
structure EpochInStep (x : PagePoint) : Prop where
  header : recognised (headerAt x.1) = true ∨ x.1 pageNotifyEpochOffset = 0
  writer : match x.2 with
    | .gone => True
    | .idle w => w.resumed = true →
      recognised (headerAt x.1) = true ∧ w.epoch = x.1 pageNotifyEpochOffset
    | .busy .resume _ m _ _ => resumedEpoch m = x.1 pageNotifyEpochOffset
    | .busy (.publish _) w _ past _ => w.resumed = true → recognised (headerAt x.1) = true ∧
      w.epoch + (if (pageNotifyEpochOffset, w.epoch + 1) ∈ past then 1 else 0) =
        x.1 pageNotifyEpochOffset

theorem EpochInStep.idle {x : PagePoint} {w : PageWriter} (h : EpochInStep x) (hx : x.2 = .idle w)
    (hw : w.resumed = true) : w.epoch = x.1 pageNotifyEpochOffset := by
  obtain ⟨m, view⟩ := x
  obtain rfl : view = .idle w := hx
  exact (h.writer hw).2

theorem resumedEpoch_eq {x : PagePoint} (h : EpochInStep x) :
    resumedEpoch x.1 = x.1 pageNotifyEpochOffset := by
  unfold resumedEpoch
  split_ifs with hr
  · rfl
  · exact (h.header.resolve_left hr).symm

/-- A store of a publication is to the notify word, or outside the header line and
elsewhere. -/
theorem publishStore_offset {w : PageWriter} {s : PageSnapshot} {scratch : Page}
    {past : List (ℕ × UInt64)} {off : ℕ} {v : UInt64} (h : PublishStore w s scratch past off v) :
    pageSeqOffset ≤ off ∧ (off = pageNotifyEpochOffset → v = w.epoch + 1) := by
  cases h with
  | odd | even => exact ⟨le_rfl, fun h => absurd h (by decide)⟩
  | body _ hmem =>
    have hle : pageHeaderSize ≤ off := mem_bodyStores hmem
    refine ⟨le_trans (by decide) hle, ?_⟩
    rintro rfl
    exact absurd hle (by decide)
  | epoch => exact ⟨by decide, fun _ => rfl⟩

theorem EpochInStep.publishStore {m m₀ : PageWords} {w : PageWriter} {s : PageSnapshot}
    {scratch : Page} {past rest : List (ℕ × UInt64)} {off : ℕ} {v : UInt64}
    (h : EpochInStep (m, .busy (.publish s) w m₀ past ((off, v) :: rest)))
    (hresumed : w.resumed = true) (hstore : PublishStore w s scratch past off v) :
    EpochInStep (Function.update m off v, .busy (.publish s) w m₀ (past ++ [(off, v)]) rest) ∧
      Function.update m off v pageNotifyEpochOffset = m pageNotifyEpochOffset +
        if bumps (.store (.publish s) off v) then 1 else 0 := by
  obtain ⟨hheader, hepoch⟩ := h.writer hresumed
  have hpast := notify_notMem_past (w.epoch + 1) hstore
  obtain ⟨hle, hvalue⟩ := publishStore_offset hstore
  have hheader' : recognised (headerAt (Function.update m off v)) = true :=
    (recognised_update_of_le hle).trans hheader
  rw [if_neg hpast, UInt64.add_zero] at hepoch
  by_cases hoff : off = pageNotifyEpochOffset
  · obtain rfl := hvalue hoff
    subst hoff
    refine ⟨⟨.inl hheader', fun _ => ⟨hheader', ?_⟩⟩, ?_⟩
    · simp
    · simp only [Function.update_self, bumps, decide_true, if_true, hepoch]
  · have hsame : Function.update m off v pageNotifyEpochOffset = m pageNotifyEpochOffset :=
      Function.update_of_ne (Ne.symm hoff) _ _
    refine ⟨⟨.inl hheader', fun _ => ⟨hheader', ?_⟩⟩, ?_⟩
    · have hpast' : (pageNotifyEpochOffset, w.epoch + 1) ∉ past ++ [(off, v)] := by
        simp [hpast, Ne.symm hoff]
      rw [if_neg hpast', UInt64.add_zero, hepoch]
      exact hsame.symm
    · simp [hsame, bumps, hoff]

/-- One step keeps page and writer in step on the notify word, and moves it by one
exactly at a bump. -/
theorem EpochInStep.step {x x' : PagePoint} {e : PageEvent} (hwf : pageSystem.WellFormed x)
    (h : EpochInStep x) (hs : pageSystem.ViewStep x e x') : EpochInStep x' ∧
      x'.1 pageNotifyEpochOffset = x.1 pageNotifyEpochOffset + if bumps e then 1 else 0 := by
  cases hs with
  | spawn => exact ⟨⟨h.header, fun hr => by simp [pageSystem] at hr⟩, by simp [bumps]⟩
  | die => exact ⟨⟨h.header, trivial⟩, by simp [bumps]⟩
  | load | start | read | finish => exact ⟨h, by simp [bumps]⟩
  | @call m c w =>
    refine ⟨⟨h.header, ?_⟩, by simp [bumps]⟩
    cases c with
    | resume => exact resumedEpoch_eq h
    | publish s => exact fun hr => by simpa using h.writer hr
  | @ret m c w m₀ past =>
    refine ⟨⟨h.header, ?_⟩, by simp [bumps]⟩
    obtain ⟨hpast, hmem⟩ := hwf
    dsimp only at hpast hmem
    rw [List.append_nil] at hpast
    cases c with
    | resume =>
      have hepoch : resumedEpoch m₀ = m pageNotifyEpochOffset := h.writer
      intro _
      refine ⟨?_, ?_⟩
      · rw [hmem, hpast]
        exact recognised_resume w m₀
      · change (w.resume.result m₀).1.epoch = _
        rw [result_resume]
        exact hepoch
    | publish s =>
      have hw : w.resumed = true → _ := h.writer
      change ((w.publish s).result m₀).1.resumed = true → _ ∧
        ((w.publish s).result m₀).1.epoch = _
      rcases publish_cases w m₀ s with ⟨hnone, e, hres⟩ | ⟨hresumed, scratch, hs⟩
      · have hnil : past = [] := hpast.trans hnone
        rw [hres]
        intro hr
        simpa [hnil] using hw hr
      · rw [result_publish w m₀ hresumed hs]
        intro _
        obtain ⟨hheader, hepoch⟩ := hw hresumed
        refine ⟨hheader, ?_⟩
        have hdue := notify_mem_stores m₀ hresumed hs
        rw [← show past = (w.publish s).stores m₀ from hpast] at hdue
        rw [← hepoch]
        simp only [hdue]
        split_ifs <;> simp
  | @store m c w m₀ past rest off v =>
    obtain ⟨hpast, hmem⟩ := hwf
    dsimp only at hpast hmem
    cases c with
    | resume =>
      obtain ⟨hoff, rfl⟩ := resumeStore_of_split hpast
      have hlt := mem_headerOffsets hoff
      have hne : pageNotifyEpochOffset ≠ off := by
        rw [pageSeqOffset] at hlt
        rw [pageNotifyEpochOffset]
        omega
      have hsame : Function.update m off (pageABI.headerWord off) pageNotifyEpochOffset =
          m pageNotifyEpochOffset := Function.update_of_ne hne _ _
      refine ⟨⟨?_, ?_⟩, ?_⟩
      · dsimp only
        rw [hsame]
        exact h.header.imp_left recognised_update
      · dsimp only
        rw [hsame]
        exact h.writer
      · simp [hsame, bumps]
    | publish s =>
      obtain ⟨hresumed, scratch, -, hstore⟩ := publishStore_of_split hpast
      exact h.publishStore hresumed hstore

/-- Along every run the notify word moves by one at each bump. -/
theorem EpochInStep.path {x x' : PagePoint} {tr : PageTrace} (hwf : pageSystem.WellFormed x)
    (h : EpochInStep x) (hp : Path pageSystem.ViewStep x tr x') : EpochInStep x' ∧
      x'.1 pageNotifyEpochOffset = x.1 pageNotifyEpochOffset + UInt64.ofNat (bumped tr) := by
  have hall : pageSystem.WellFormed x' ∧ EpochInStep x' ∧
      x'.1 pageNotifyEpochOffset = x.1 pageNotifyEpochOffset + UInt64.ofNat (bumped tr) := by
    refine hp.invariant (P := fun tr x' => pageSystem.WellFormed x' ∧ EpochInStep x' ∧
      x'.1 pageNotifyEpochOffset = x.1 pageNotifyEpochOffset + UInt64.ofNat (bumped tr))
      ⟨hwf, h, by simp [bumped]⟩ ?_
    rintro tr x₁ e x₂ ⟨hwf₁, h₁, hword⟩ hs
    obtain ⟨h₂, hstep⟩ := h₁.step hwf₁ hs
    refine ⟨hwf₁.step hs, h₂, ?_⟩
    rw [hstep, hword, bumped_append, UInt64.ofNat_add, UInt64.add_assoc]
    cases he : bumps e <;> simp [bumped, he]
  exact hall.2

theorem epochInStep_start {m₀ : PageWords}
    (h : (∀ off, m₀ off = 0) ∨ recognised (headerAt m₀) = true) : EpochInStep (m₀, .gone) :=
  ⟨h.symm.imp_right (fun h => h _), trivial⟩

/-- The publications a trace returns without an error, in order. -/
def accepted (tr : PageTrace) : List PageSnapshot :=
  tr.filterMap fun
    | .ret (.publish s) (.ok _) => some s
    | _ => none

theorem accepted_append (tr tr' : PageTrace) : accepted (tr ++ tr') = accepted tr ++ accepted tr' :=
  List.filterMap_append

/-- How many of the snapshots are due, each after the one before it. -/
def dueCount : Option PageSnapshot → List PageSnapshot → ℕ
  | _, [] => 0
  | prev, s :: rest => (if pageNotifyDue prev s then 1 else 0) + dueCount (some s) rest

theorem dueCount_snoc (prev : Option PageSnapshot) (l : List PageSnapshot) (s : PageSnapshot) :
    dueCount prev (l ++ [s]) =
      dueCount prev l + if pageNotifyDue (l.getLast?.or prev) s then 1 else 0 := by
  induction l generalizing prev with
  | nil =>
    rw [List.nil_append, dueCount, dueCount, dueCount, Nat.add_comm]
    rfl
  | cons a l ih =>
    have hlast : (a :: l).getLast?.or prev = l.getLast?.or (some a) := by
      cases l <;> simp [List.getLast?_cons]
    rw [List.cons_append, dueCount, ih, hlast, dueCount, Nat.add_assoc]

/-- The same writer goes on through the trace, without another `Resume`. -/
def SameWriter (tr : PageTrace) : Prop := ∀ e ∈ tr, e ≠ .spawn ∧ e ≠ .die ∧ e ≠ .call .resume

/-- The writer has counted the due publications of the trace. -/
structure Counted (e₀ : UInt64) (tr : PageTrace) (w : PageWriter) : Prop where
  resumed : w.resumed = true
  epoch : w.epoch = e₀ + UInt64.ofNat (dueCount none (accepted tr))
  due : ∀ s, w.due s = pageNotifyDue (accepted tr).getLast? s

/-- The writer of the view, between calls or inside a `Publish`. -/
def Publishing (w : PageWriter) : View ℕ UInt64 PageWriter PageCall → Prop
  | .idle w' => w' = w
  | .busy (.publish _) w' _ _ _ => w' = w
  | _ => False

theorem Counted.silent {e₀ : UInt64} {tr : PageTrace} {w : PageWriter} {e : PageEvent}
    (h : Counted e₀ tr w) (he : accepted [e] = []) : Counted e₀ (tr ++ [e]) w := by
  have hsame : accepted (tr ++ [e]) = accepted tr := by
    rw [accepted_append, he, List.append_nil]
  exact ⟨h.resumed, hsame ▸ h.epoch, hsame ▸ h.due⟩

/-- An accepted publication is counted when it is due. -/
theorem Counted.publish {e₀ : UInt64} {tr : PageTrace} {w : PageWriter} {s : PageSnapshot}
    {scratch : Page} (m : PageWords) (h : Counted e₀ tr w) (hs : encodePage s = .ok scratch) :
    Counted e₀ (tr ++ [.ret (.publish s) (.ok ())]) ((w.publish s).result m).1 := by
  have hsnoc : accepted (tr ++ [.ret (.publish s) (.ok ())]) = accepted tr ++ [s] :=
    accepted_append ..
  rw [result_publish w m h.resumed hs]
  refine ⟨h.resumed, ?_, fun t => ?_⟩
  · rw [hsnoc, dueCount_snoc, Option.or_none, ← h.due s, UInt64.ofNat_add, ← UInt64.add_assoc,
      ← h.epoch]
    cases w.due s <;> simp
  · rw [hsnoc, List.getLast?_concat]
    change (!true || decide (notifyKeyOf t ≠ notifyKeyOf s)) =
      decide (notifyKeyOf s ≠ notifyKeyOf t)
    rw [Bool.not_true, Bool.false_or]
    exact decide_eq_decide.mpr ⟨Ne.symm, Ne.symm⟩

theorem counted_step {e₀ : UInt64} {tr : PageTrace} {x x' : PagePoint} {e : PageEvent}
    (he : e ≠ .spawn ∧ e ≠ .die ∧ e ≠ .call .resume) (h : ∃ w, Publishing w x.2 ∧ Counted e₀ tr w)
    (hs : pageSystem.ViewStep x e x') :
    ∃ w, Publishing w x'.2 ∧ Counted e₀ (tr ++ [e]) w := by
  obtain ⟨w, hw, hcount⟩ := h
  cases hs with
  | spawn => exact absurd rfl he.1
  | die => exact absurd rfl he.2.1
  | load | start | read | finish => exact ⟨w, hw, hcount.silent rfl⟩
  | @store m c =>
    cases c with
    | resume => exact absurd hw id
    | publish s => exact ⟨w, hw, hcount.silent rfl⟩
  | @call m c =>
    cases c with
    | resume => exact absurd rfl he.2.2
    | publish s => exact ⟨w, hw, hcount.silent rfl⟩
  | @ret m c w' m₀ past =>
    cases c with
    | resume => exact absurd hw id
    | publish s =>
      obtain rfl : w' = w := hw
      change ∃ w, ((w'.publish s).result m₀).1 = w ∧
        Counted e₀ (tr ++ [.ret (.publish s) ((w'.publish s).result m₀).2]) w
      rcases publish_cases w' m₀ s with ⟨-, e, hres⟩ | ⟨hresumed, scratch, hs⟩
      · rw [hres]
        exact ⟨w', rfl, hcount.silent rfl⟩
      · have hok : ((w'.publish s).result m₀).2 = .ok () := by
          rw [result_publish w' m₀ hresumed hs]
        rw [hok]
        exact ⟨_, rfl, hcount.publish m₀ hs⟩

/-- After a `Resume` returned, and whenever its writer is between calls again, the
notify word is that of the `Resume` plus the due publications since. -/
theorem notifyEpoch_count {m₀ : PageWords}
    (hinit : (∀ off, m₀ off = 0) ∨ recognised (headerAt m₀) = true) {tr tr' : PageTrace}
    {st st' : PageState} {w : PageWriter}
    (hrun : pageSystem.Run m₀ (tr ++ [.ret .resume (.ok ())]) st)
    (hgoes : Path pageSystem.Step st tr' st') (hsame : SameWriter tr')
    (hidle : st'.writer = .idle w) :
    st'.mem pageNotifyEpochOffset =
      st.mem pageNotifyEpochOffset + UInt64.ofNat (dueCount none (accepted tr')) := by
  obtain ⟨x, hview, hx⟩ := hrun.view
  obtain ⟨x', hview', hx'⟩ := hx.path hgoes
  have hwf := System.wellFormed_gone.path hview
  have hepoch := ((epochInStep_start hinit).path System.wellFormed_gone hview).1
  have hepoch' := (hepoch.path hwf hview').1
  have hresumed : ∃ w, Publishing w x.2 ∧ Counted (x.1 pageNotifyEpochOffset) [] w := by
    obtain ⟨x₀, -, hret⟩ := Path.of_snoc hview
    obtain ⟨w₀, m, past, -, -, rfl⟩ := hret.of_ret
    have hw : (w₀.resume.result m).1.resumed = true ∧ (w₀.resume.result m).1.hasLast = false := by
      rw [result_resume]
      exact ⟨rfl, rfl⟩
    refine ⟨(w₀.resume.result m).1, rfl, hw.1, ?_, fun s => ?_⟩
    · have hword : (w₀.resume.result m).1.epoch = x₀.1 pageNotifyEpochOffset :=
        hepoch.idle rfl hw.1
      rw [hword]
      simp [accepted, dueCount]
    · rw [due, hw.2]
      rfl
  have hcounted : SameWriter tr' → ∃ w, Publishing w x'.2 ∧
      Counted (x.1 pageNotifyEpochOffset) tr' w := by
    refine hview'.invariant (P := fun tr x' => SameWriter tr → ∃ w, Publishing w x'.2 ∧
      Counted (x.1 pageNotifyEpochOffset) tr w) (fun _ => hresumed) ?_
    intro tr x₁ e x₂ ih hs hsame
    refine counted_step (hsame e (by simp)) (ih fun e' he' => hsame e' (by simp [he'])) hs
  obtain ⟨w', hw', hcount⟩ := hcounted hsame
  have hidle' := hx'.idle hidle
  rw [hidle'] at hw'
  obtain rfl : w = w' := hw'
  rw [hx.1, hx'.1, ← hepoch'.idle hidle' hcount.resumed, hcount.epoch]

/-- The even seq store of a publication has been made. -/
def Completed (w : PageWriter) (past : List (ℕ × UInt64)) : Prop :=
  (pageSeqOffset, w.seq + 2) ∈ past

instance (w : PageWriter) (past : List (ℕ × UInt64)) : Decidable (Completed w past) :=
  inferInstanceAs (Decidable (_ ∈ past))

/-- The stores of a publication: before its even seq store, that store, and the bump. -/
theorem publishStore_cases {m : PageWords} {w : PageWriter} {s : PageSnapshot}
    {past rest : List (ℕ × UInt64)} {off : ℕ} {v : UInt64}
    (h : past ++ (off, v) :: rest = (w.publish s).stores m) (heven : w.seq % 2 = 0) :
    (committed (.store (.publish s) off v) = none ∧ bumps (.store (.publish s) off v) = false ∧
      ¬Completed w (past ++ [(off, v)])) ∨
    (committed (.store (.publish s) off v) = some s ∧ ¬Completed w past ∧
      Completed w (past ++ [(off, v)]) ∧ (rest = [] → w.due s = false)) ∨
    (committed (.store (.publish s) off v) = none ∧ bumps (.store (.publish s) off v) = true ∧
      Completed w past) := by
  obtain ⟨hresumed, scratch, hs, hstore⟩ := publishStore_of_split h
  have hbody : (pageSeqOffset, w.seq + 2) ∉ bodyStores scratch := notMem_bodyStores (by decide)
  have hne : w.seq + 2 ≠ w.seq + 1 := by grind
  cases hstore with
  | odd =>
    refine .inl ⟨?_, rfl, by simp [Completed, hne]⟩
    have hodd : (w.seq + 1) % 2 ≠ 0 := by grind
    simp [committed, hodd]
  | @body past _ _ hpre hmem =>
    have hle : pageHeaderSize ≤ off := mem_bodyStores hmem
    have hoff : pageSeqOffset ≠ off := by
      rintro rfl
      exact absurd hle (by decide)
    have hoff' : off ≠ pageNotifyEpochOffset := by
      rintro rfl
      exact absurd hle (by decide)
    have hpast : (pageSeqOffset, w.seq + 2) ∉ past := fun hmem => hbody (hpre.subset hmem)
    exact .inl ⟨by simp [committed, Ne.symm hoff], by simp [bumps, hoff'],
      by simp [Completed, hne, hpast, hoff]⟩
  | even =>
    have htwo : (w.seq + 2) % 2 = 0 := by grind
    refine .inr (.inl ⟨by simp [committed, htwo], by simp [Completed, hne, hbody],
      by simp [Completed], ?_⟩)
    rintro rfl
    rw [stores_publish w m hresumed hs, List.cons_append] at h
    have htail := List.append_cancel_left (List.cons.inj h).2
    cases hdue : w.due s with
    | false => rfl
    | true => simp [hdue] at htail
  | epoch =>
    exact .inr (.inr ⟨by simp [committed, pageNotifyEpochOffset, pageSeqOffset], by simp [bumps],
      by simp [Completed]⟩)

/-- What holds of the key the writer compares with next, if it has one. Between an even
seq store and its bump nothing is said, unless `always`. -/
def WriterKey (always : Bool) (P : PageNotifyKey → Prop) (x : PagePoint) : Prop :=
  match x.2 with
  | .idle w => w.hasLast = true → P w.last
  | .busy (.publish s) w _ past rest =>
    if Completed w past then (always = true ∨ rest = []) → P (notifyKeyOf s)
    else w.hasLast = true → P w.last
  | _ => True

theorem InStep.writer_even {q : UInt64} {m m₀ : PageWords} {w : PageWriter} {s : PageSnapshot}
    {past rest : List (ℕ × UInt64)} (h : InStep q (m, .busy (.publish s) w m₀ past rest))
    (hresumed : w.resumed = true) : w.seq % 2 = 0 := by
  have hseq := (h.writer hresumed).2
  have heven := h.even
  split_ifs at hseq <;> grind

theorem WriterKey.imp {always : Bool} {P P' : PageNotifyKey → Prop} {x : PagePoint}
    (h : WriterKey always P x) (hP : ∀ k, P k → P' k) : WriterKey always P' x := by
  obtain ⟨m, view⟩ := x
  match view with
  | .gone | .busy .resume _ _ _ _ => trivial
  | .idle w => exact fun hw => hP _ (h hw)
  | .busy (.publish s) w _ past rest =>
    simp only [WriterKey] at h ⊢
    split_ifs at h ⊢
    · exact fun hr => hP _ (h hr)
    · exact fun hw => hP _ (h hw)

theorem notDue {w : PageWriter} {s : PageSnapshot} (h : w.due s = false) :
    w.hasLast = true ∧ notifyKeyOf s = w.last := by
  rw [due, Bool.or_eq_false_iff, Bool.not_eq_false', decide_eq_false_iff_not, not_not] at h
  exact h

/-- The key the writer compares with changes only at a commit, and an accepted
publication that is not due has the key of the last. -/
theorem WriterKey.step {always : Bool} {P P' : PageNotifyKey → Prop} {q : UInt64}
    {x x' : PagePoint} {e : PageEvent} (hwf : pageSystem.WellFormed x) (hq : InStep q x)
    (h : WriterKey always P x) (hs : pageSystem.ViewStep x e x')
    (hkeep : committed e = none → ∀ k, P k → P' k)
    (hcommit : ∀ s, committed e = some s → always = true ∨ P (notifyKeyOf s) → P' (notifyKeyOf s))
    (hbump : always = true ∨ bumps e = false) : WriterKey always P' x' := by
  cases hs with
  | spawn => exact fun hlast => by simp [pageSystem] at hlast
  | die => trivial
  | load | start | read | finish => exact h.imp (hkeep rfl)
  | @call m c w =>
    cases c with
    | resume => trivial
    | publish s =>
      have hlast : w.hasLast = true → P w.last := h
      simp only [WriterKey, Completed, List.not_mem_nil, if_false]
      exact fun hw => hkeep rfl _ (hlast hw)
  | @ret m c w m₀ past =>
    obtain ⟨hpast, -⟩ := hwf
    rw [List.append_nil] at hpast
    cases c with
    | resume =>
      change (w.resume.result m₀).1.hasLast = true → _
      rw [result_resume]
      exact fun hlast => absurd hlast (by simp)
    | publish s =>
      change ((w.publish s).result m₀).1.hasLast = true → P' ((w.publish s).result m₀).1.last
      simp only [WriterKey] at h
      rcases publish_cases w m₀ s with ⟨hnone, e, hres⟩ | ⟨hresumed, scratch, hs⟩
      · obtain rfl : past = [] := hpast.trans hnone
        rw [if_neg (by simp [Completed])] at h
        rw [hres]
        exact fun hlast => hkeep rfl _ (h hlast)
      · have hcompleted : Completed w past := by
          rw [Completed, show past = (w.publish s).stores m₀ from hpast,
            stores_publish w m₀ hresumed hs]
          simp
        rw [if_pos hcompleted] at h
        rw [result_publish w m₀ hresumed hs]
        exact fun _ => hkeep rfl _ (h (by simp))
  | @store m c w m₀ past rest off v =>
    obtain ⟨hpast, -⟩ := hwf
    cases c with
    | resume => trivial
    | publish s =>
      have heven := hq.writer_even (publishStore_of_split hpast).1
      simp only [WriterKey] at h ⊢
      rcases publishStore_cases hpast heven with ⟨hnone, -, hlater⟩ |
        ⟨hsome, hbefore, hafter, hdue⟩ | ⟨hnone, hbumps, hbefore⟩
      · have hbefore : ¬Completed w past := fun hmem => hlater (List.mem_append_left _ hmem)
        rw [if_neg hbefore] at h
        rw [if_neg hlater]
        exact fun hw => hkeep hnone _ (h hw)
      · -- the even seq store: not due means the key of the last publication
        rw [if_neg hbefore] at h
        rw [if_pos hafter]
        rintro (halways | hrest)
        · exact hcommit s hsome (.inl halways)
        · obtain ⟨hw, hsame⟩ := notDue (hdue hrest)
          refine hcommit s hsome (.inr ?_)
          rw [hsame]
          exact h hw
      · rw [if_pos hbefore] at h
        have hafter : Completed w (past ++ [(off, v)]) := List.mem_append_left _ hbefore
        rw [if_pos hafter]
        intro _
        have halways := hbump.resolve_right (by simp [hbumps])
        exact hkeep hnone _ (h (.inl halways))

/-- The key of the last publication a trace completes. -/
def lastKey (tr : PageTrace) : Option PageNotifyKey := (commits tr).getLast?.map notifyKeyOf

/-- The writer compares with the last completed publication. -/
theorem writerKey_path {m₀ : PageWords} {q : UInt64} (hq : InStep q (m₀, .gone)) {tr : PageTrace}
    {x : PagePoint} (hp : Path pageSystem.ViewStep (m₀, .gone) tr x) :
    WriterKey true (fun k => lastKey tr = some k) x := by
  have hall : pageSystem.WellFormed x ∧ (∃ q, InStep q x) ∧
      WriterKey true (fun k => lastKey tr = some k) x := by
    refine hp.invariant (P := fun tr x => pageSystem.WellFormed x ∧ (∃ q, InStep q x) ∧
      WriterKey true (fun k => lastKey tr = some k) x) ⟨trivial, ⟨q, hq⟩, trivial⟩ ?_
    rintro tr x e x' ⟨hwf, ⟨q, hq⟩, h⟩ hs
    refine ⟨hwf.step hs, ⟨_, hq.step hwf hs⟩, h.step hwf hq hs ?_ ?_ (.inl rfl)⟩
    · intro hnone k hk
      rw [← hk]
      simp [lastKey, commits, hnone]
    · intro s hs _
      simp [lastKey, commits, hs]
  exact hall.2.2

/-- Without a bump only publications with the writer's key are completed. -/
theorem settled_path {key : PageNotifyKey} {q : UInt64} {tr : PageTrace} {x x' : PagePoint}
    (hwf : pageSystem.WellFormed x) (hq : InStep q x) (hx : WriterKey false (fun k => k = key) x)
    (hp : Path pageSystem.ViewStep x tr x') (hquiet : bumped tr = 0) :
    WriterKey false (fun k => k = key ∧ ∀ s ∈ commits tr, notifyKeyOf s = key) x' := by
  have hall : pageSystem.WellFormed x' ∧ (∃ q, InStep q x') ∧ (bumped tr = 0 →
      WriterKey false (fun k => k = key ∧ ∀ s ∈ commits tr, notifyKeyOf s = key) x') := by
    refine hp.invariant (P := fun tr x' => pageSystem.WellFormed x' ∧ (∃ q, InStep q x') ∧
      (bumped tr = 0 →
        WriterKey false (fun k => k = key ∧ ∀ s ∈ commits tr, notifyKeyOf s = key) x'))
      ⟨hwf, ⟨q, hq⟩, fun _ => hx.imp fun k hk => ⟨hk, by simp [commits]⟩⟩ ?_
    rintro tr x₁ e x₂ ⟨hwf₁, ⟨q₁, hq₁⟩, h₁⟩ hs
    refine ⟨hwf₁.step hs, ⟨_, hq₁.step hwf₁ hs⟩, fun hzero => ?_⟩
    rw [bumped_append, Nat.add_eq_zero_iff] at hzero
    refine (h₁ hzero.1).step hwf₁ hq₁ hs ?_ ?_ (.inr ?_)
    · intro hnone k hk
      simpa [commits, hnone] using hk
    · rintro s hs (hfalse | ⟨hkey, hsame⟩)
      · simp at hfalse
      · refine ⟨hkey, fun t ht => ?_⟩
        rw [commits_append] at ht
        rcases List.mem_append.mp ht with ht | ht
        · exact hsame t ht
        · simp only [commits, List.filterMap_cons, hs, List.filterMap_nil,
            List.mem_singleton] at ht
          rw [ht, hkey]
    · simpa [bumped] using hzero.2
  exact hall.2.2 hquiet

/-- Between the even seq store of a publication and its return, it is the last one
completed. -/
def LastCompleted (tr : PageTrace) (x : PagePoint) : Prop :=
  match x.2 with
  | .busy (.publish s) w _ past _ => Completed w past → (commits tr).getLast? = some s
  | _ => True

theorem LastCompleted.step {tr : PageTrace} {q : UInt64} {x x' : PagePoint} {e : PageEvent}
    (hwf : pageSystem.WellFormed x) (hq : InStep q x) (h : LastCompleted tr x)
    (hs : pageSystem.ViewStep x e x') : LastCompleted (tr ++ [e]) x' := by
  have hsilent : committed e = none → commits (tr ++ [e]) = commits tr := by
    intro hnone
    simp [commits, hnone]
  cases hs with
  | spawn | die | ret => trivial
  | load | start | read | finish =>
    rw [LastCompleted, hsilent rfl]
    exact h
  | @call m c w =>
    cases c with
    | resume => trivial
    | publish s => exact fun hmem => absurd hmem (by simp [Completed])
  | @store m c w m₀ past rest off v =>
    obtain ⟨hpast, -⟩ := hwf
    cases c with
    | resume => trivial
    | publish s =>
      have heven := hq.writer_even (publishStore_of_split hpast).1
      intro hcompleted
      rcases publishStore_cases hpast heven with ⟨-, -, hlater⟩ | ⟨hsome, -⟩ | ⟨hnone, -, hbefore⟩
      · exact absurd hcompleted hlater
      · simp [commits, hsome]
      · rw [hsilent hnone]
        exact h hbefore

theorem lastCompleted_path {m₀ : PageWords} {q : UInt64} (hq : InStep q (m₀, .gone))
    {tr : PageTrace} {x : PagePoint} (hp : Path pageSystem.ViewStep (m₀, .gone) tr x) :
    LastCompleted tr x := by
  have hall : pageSystem.WellFormed x ∧ (∃ q, InStep q x) ∧ LastCompleted tr x := by
    refine hp.invariant (P := fun tr x => pageSystem.WellFormed x ∧ (∃ q, InStep q x) ∧
      LastCompleted tr x) ⟨trivial, ⟨q, hq⟩, trivial⟩ ?_
    rintro tr x e x' ⟨hwf, ⟨q, hq⟩, h⟩ hs
    exact ⟨hwf.step hs, ⟨_, hq.step hwf hs⟩, h.step hwf hq hs⟩
  exact hall.2.2

/-- When the notify word is stored, its publication is the last one completed. -/
theorem commits_before_bump {m₀ : PageWords} {q : UInt64} (hq : InStep q (m₀, .gone))
    {a b : PageTrace} {st : PageState} {s : PageSnapshot} {v : UInt64}
    (hrun : pageSystem.Run m₀ (a ++ .store (.publish s) pageNotifyEpochOffset v :: b) st) :
    (commits a).getLast? = some s := by
  obtain ⟨x₂, hview, -⟩ := hrun.view
  obtain ⟨x, hx, hrest⟩ := Path.split hview
  obtain ⟨x₁, hstore, -⟩ := Path.of_cons hrest
  have hwf := System.wellFormed_gone.path hx
  have hqx := hq.path System.wellFormed_gone hx
  have hlast := lastCompleted_path hq hx
  cases hstore with
  | @store m _ w m₁ past rest =>
    have heven := hqx.writer_even (publishStore_of_split hwf.1).1
    rcases publishStore_cases hwf.1 heven with ⟨-, hbumps, -⟩ | ⟨hsome, -⟩ | ⟨-, -, hbefore⟩
    · simp [bumps] at hbumps
    · simp [committed, pageNotifyEpochOffset, pageSeqOffset] at hsome
    · exact hlast hbefore

theorem WriterKey.weaken {P : PageNotifyKey → Prop} {x : PagePoint} (h : WriterKey true P x) :
    WriterKey false P x := by
  obtain ⟨m, view⟩ := x
  match view with
  | .gone | .busy .resume _ _ _ _ => trivial
  | .idle w => exact h
  | .busy (.publish s) w _ past rest =>
    simp only [WriterKey] at h ⊢
    split_ifs at h ⊢
    · exact fun _ => h (by simp)
    · exact h

/-- After a publication was accepted the writer has a last publication. -/
theorem hasLast_of_ret {x x' : PagePoint} {s : PageSnapshot}
    (h : pageSystem.ViewStep x (.ret (.publish s) (.ok ())) x') :
    ∃ w, x'.2 = .idle w ∧ w.hasLast = true := by
  obtain ⟨w, m, past, -, hok, rfl⟩ := h.of_ret
  change .ok () = ((w.publish s).result m).2 at hok
  refine ⟨((w.publish s).result m).1, rfl, ?_⟩
  rcases publish_cases w m s with ⟨-, e, hres⟩ | ⟨hresumed, scratch, hs⟩
  · rw [hres] at hok
    exact absurd hok (by simp)
  · rw [result_publish w m hresumed hs]

/-- A completed publication with another key, and then an accepted one, bump the notify
word. -/
theorem bumped_of_newKey {m₀ : PageWords} {q : UInt64} (hq : InStep q (m₀, .gone))
    {before rest : PageTrace} {st : PageState} {sⱼ sₖ s : PageSnapshot}
    (hrun : pageSystem.Run m₀ (before ++ (rest ++ [.ret (.publish s) (.ok ())])) st)
    (hj : (commits before).getLast? = some sⱼ) (hk : sₖ ∈ commits rest)
    (hkey : notifyKeyOf sₖ ≠ notifyKeyOf sⱼ) : 0 < bumped rest := by
  obtain ⟨x₂, hview, -⟩ := hrun.view
  obtain ⟨x, hbefore, hafter⟩ := Path.split hview
  obtain ⟨x₁, -, hret⟩ := Path.of_snoc hafter
  obtain ⟨w, hidle, hlast⟩ := hasLast_of_ret hret
  rw [Nat.pos_iff_ne_zero]
  intro hzero
  have hsettled : WriterKey false (fun k => k = notifyKeyOf sⱼ) x := by
    refine ((writerKey_path hq hbefore).imp fun k hk => ?_).weaken
    rw [lastKey, hj] at hk
    exact (Option.some.inj hk).symm
  have hquiet : bumped (rest ++ [.ret (.publish s) (.ok ())]) = 0 := by
    rw [bumped_append, hzero]
    rfl
  have hend := settled_path (System.wellFormed_gone.path hbefore)
    (hq.path System.wellFormed_gone hbefore) hsettled hafter hquiet
  rw [WriterKey, hidle] at hend
  refine hkey ((hend hlast).2 sₖ ?_)
  rw [commits_append]
  exact List.mem_append_left _ hk

/-- The notify word at a load, and later. -/
theorem notifyEpoch_since {m₀ : PageWords} (h : EpochInStep (m₀, .gone)) {pre since : PageTrace}
    {st : PageState} {i : ℕ} {e : UInt64}
    (hrun : pageSystem.Run m₀ (pre ++ .read i pageNotifyEpochOffset e :: since) st) :
    st.mem pageNotifyEpochOffset = e + UInt64.ofNat (bumped since) := by
  obtain ⟨x₂, hview, hx₂⟩ := hrun.view
  obtain ⟨x, hpre, hrest⟩ := Path.split hview
  obtain ⟨x₁, hread, hsince⟩ := Path.of_cons hrest
  obtain ⟨rfl, rfl⟩ := hread.of_read
  have hx := (h.path System.wellFormed_gone hpre).1
  rw [hx₂.1]
  exact (hx.path (System.wellFormed_gone.path hpre) hsince).2

/-- The notify word, over every run from a zeroed or a recognised page. -/
theorem notifyEpoch_correct {m₀ : PageWords}
    (hinit : (∀ off, m₀ off = 0) ∨ recognised (headerAt m₀) = true) :
    -- count: since a `Resume`, one for each accepted publication that was due
    (∀ {tr tr' : PageTrace} {st st' : PageState} {w : PageWriter},
      pageSystem.Run m₀ (tr ++ [.ret .resume (.ok ())]) st → Path pageSystem.Step st tr' st' →
      SameWriter tr' → st'.writer = .idle w →
      st'.mem pageNotifyEpochOffset =
        st.mem pageNotifyEpochOffset + UInt64.ofNat (dueCount none (accepted tr'))) ∧
    -- a refused publication stores nothing and leaves the writer as it was
    (∀ (w : PageWriter) (m : PageWords) (s : PageSnapshot) (e : PageError),
      ((w.publish s).result m).2 = .error e →
      (w.publish s).stores m = [] ∧ ((w.publish s).result m).1 = w) ∧
    (∀ {prev next : PageSnapshot} {page page' : Page}, encodePage prev = .ok page →
      encodePage next = .ok page' → (pageNotifyDue (some prev) next = true ↔
        prev.level ≠ next.level ∨ prev.admits ≠ next.admits ∨
          prev.generation ≠ next.generation ∨ ∃ i j, ladderAt prev i j ≠ ladderAt next i j)) ∧
    -- order: a read after a load of the notify word that publication `s` stored
    (∀ {tr a b c : PageTrace} {st : PageState} {s : PageSnapshot} {v : UInt64} {r : PageRead}
      {i : ℕ} {ws : List UInt64} {before during : PageTrace}, pageSystem.Run m₀ tr st →
      before = a ++ .store (.publish s) pageNotifyEpochOffset v :: b ++
        .read i pageNotifyEpochOffset v :: c →
      Accepts r i ws before during tr → opened during < 2 ^ 63 →
      ∃ older newer t page, commits before = older ++ s :: newer ∧
        (s :: newer).getLast? = some t ∧ encodePage t = .ok page ∧
        ws = bodyOffsets.map (wordAt page)) ∧
    -- no lost wake-up
    (∀ {pre gap rest : PageTrace} {st : PageState} {i : ℕ} {e : UInt64} {r : PageRead}
      {ws : List UInt64} {before during : PageTrace} {sⱼ sₖ s : PageSnapshot},
      before = pre ++ .read i pageNotifyEpochOffset e :: gap →
      pageSystem.Run m₀ (before ++ (rest ++ [.ret (.publish s) (.ok ())])) st →
      Accepts r i ws before during (before ++ (rest ++ [.ret (.publish s) (.ok ())])) →
      (commits before).getLast? = some sⱼ → sₖ ∈ commits rest →
      notifyKeyOf sₖ ≠ notifyKeyOf sⱼ →
      (opened during < 2 ^ 63 →
        ∃ page, encodePage sⱼ = .ok page ∧ ws = bodyOffsets.map (wordAt page)) ∧
      0 < bumped (gap ++ rest) ∧
      st.mem pageNotifyEpochOffset = e + UInt64.ofNat (bumped (gap ++ rest)) ∧
      (bumped (gap ++ rest) < 2 ^ 64 → st.mem pageNotifyEpochOffset ≠ e)) := by
  obtain ⟨q, hq⟩ := inStep_start (hinit.symm.imp_right (fun h => h _))
  have hepoch := epochInStep_start hinit
  refine ⟨fun hrun hgoes hsame hidle => notifyEpoch_count hinit hrun hgoes hsame hidle, ?_,
    fun hp hn => pageNotifyDue_iff (encodePage_ok.mp hp).1 (encodePage_ok.mp hn).1, ?_, ?_⟩
  · intro w m s e he
    rcases publish_cases w m s with ⟨hnone, e', hres⟩ | ⟨hresumed, scratch, hs⟩
    · exact ⟨hnone, by rw [hres]⟩
    · rw [result_publish w m hresumed hs] at he
      exact absurd he (by simp)
  · rintro tr a b c st s v r i ws before during hrun rfl hread hfew
    have hlast : (commits a).getLast? = some s := by
      obtain ⟨pre, gap, seq, post, -, -, -, rfl⟩ := hread.split
      simp only [List.append_assoc, List.cons_append] at hrun
      exact commits_before_bump hq hrun
    have hbody := hread.lastPublished hq hrun hfew
    obtain ⟨older, holder⟩ := List.getLast?_eq_some_iff.mp hlast
    have hcommits : commits (a ++ .store (.publish s) pageNotifyEpochOffset v :: b ++
        .read i pageNotifyEpochOffset v :: c) =
        older ++ s :: commits (b ++ .read i pageNotifyEpochOffset v :: c) := by
      rw [List.append_assoc, commits_append, holder, List.append_assoc]
      rfl
    rw [LastPublished, hcommits, List.getLast?_append_of_ne_nil _ (by simp)] at hbody
    obtain ⟨t, ht⟩ : ∃ t, (s :: commits (b ++ .read i pageNotifyEpochOffset v :: c)).getLast? =
        some t := ⟨_, List.getLast?_eq_some_getLast (by simp)⟩
    rw [ht] at hbody
    obtain ⟨page, hpage, hws⟩ := hbody
    exact ⟨older, _, t, page, hcommits, ht, hpage, hws⟩
  · rintro pre gap rest st i e r ws before during sⱼ sₖ s rfl hrun hread hj hk hkey
    have hbump := bumped_of_newKey hq hrun hj hk hkey
    have hword : st.mem pageNotifyEpochOffset = e + UInt64.ofNat (bumped (gap ++ rest)) := by
      have hrun' := hrun
      rw [List.append_assoc, List.cons_append] at hrun'
      rw [notifyEpoch_since hepoch hrun', ← List.append_assoc, bumped_append (gap ++ rest)]
      rfl
    have hpos : 0 < bumped (gap ++ rest) := by
      rw [bumped_append]
      omega
    refine ⟨fun hfew => ?_, hpos, hword, fun hlt heq => ?_⟩
    · have hbody := hread.lastPublished hq hrun hfew
      rw [LastPublished, hj] at hbody
      exact hbody
    · have hzero : UInt64.ofNat (bumped (gap ++ rest)) = 0 := by
        rw [hword] at heq
        grind
      have hmod := congrArg UInt64.toNat hzero
      rw [UInt64.toNat_ofNat', UInt64.toNat_zero] at hmod
      omega

/-- An idle resumed writer can complete a publication and return. -/
theorem run_publishOnce {m₀ : PageWords} {tr : PageTrace} {st : PageState} {w : PageWriter}
    {s : PageSnapshot} {page : Page} (hrun : pageSystem.Run m₀ tr st) (hidle : st.writer = .idle w)
    (hw : w.resumed = true) (hs : encodePage s = .ok page) (heven : w.seq % 2 = 0) :
    ∃ init st', pageSystem.Run m₀ (tr ++ (init ++ [.ret (.publish s) (.ok ())])) st' ∧
      commits init = [s] := by
  have hcall := System.Run.call hrun hidle (.publish s)
  have hcommits := commits_publish st.mem hw hs heven
  obtain ⟨init, hinit⟩ := Program.callEvents_eq_concat (R := PageRead) (A := PageAnswer)
    (PageCall.publish s) (w.publish s) st.mem
  rw [result_publish w st.mem hw hs] at hinit
  change pageSystem.Run m₀ (tr ++ .call (.publish s) ::
    (w.publish s).callEvents (.publish s) st.mem) _ at hcall
  rw [hinit] at hcall hcommits
  refine ⟨.call (.publish s) :: init, _, hcall, ?_⟩
  have hret : commits [(.ret (.publish s) (.ok ()) : PageEvent)] = [] := rfl
  rw [← List.cons_append, commits_append, hret, List.append_nil] at hcommits
  exact hcommits

/-- On a zeroed page: a publication, a reader that loads the notify word and accepts its
body, and a publication of another generation. -/
theorem notifyEpoch_correct_wakesReader : ∃ pre gap rest during st e ws,
    pageSystem.Run (fun _ => 0) (pre ++ .read 0 pageNotifyEpochOffset e :: gap ++
      (rest ++ [.ret (.publish (numbered 2 1)) (.ok ())])) st ∧
    Accepts .seqlock 0 ws (pre ++ .read 0 pageNotifyEpochOffset e :: gap) during
      (pre ++ .read 0 pageNotifyEpochOffset e :: gap ++
        (rest ++ [.ret (.publish (numbered 2 1)) (.ok ())])) ∧
    (∃ page, encodePage (numbered 1 1) = .ok page ∧ ws = bodyOffsets.map (wordAt page)) ∧
    0 < bumped (gap ++ rest) ∧
    st.mem pageNotifyEpochOffset = e + UInt64.ofNat (bumped (gap ++ rest)) := by
  have hfirst := encodePage_numbered 1 (by decide : (0 : Int64) < 1)
  have hsecond := encodePage_numbered 2 (by decide : (0 : Int64) < 1)
  have hzero : recognised (headerAt fun _ => 0) = false := by decide +kernel
  obtain ⟨tr, st, w, hr⟩ := run_restart hzero
  obtain ⟨tr₁, st₁, hpub⟩ := run_publishes hr.run hr.writer hr.resumed hfirst
    (by rw [hr.seq]; rfl) 1
  obtain ⟨w₁, hidle, hresumed, hseq⟩ := hpub.writer
  have hload : pageSystem.Run (fun _ => 0) (tr ++ tr₁ ++ [.start 0 .notifyEpoch,
      .read 0 pageNotifyEpochOffset (st₁.mem pageNotifyEpochOffset),
      .finish 0 .notifyEpoch (.epoch (st₁.mem pageNotifyEpochOffset))]) (st₁.reading 0 none) :=
    System.Run.read hpub.run 0 .notifyEpoch (by rw [hpub.reader]; exact hr.readers 0) rfl
  obtain ⟨during, tr₂, hread, hquiet, haccepts⟩ := run_seqlockRead hload 0
    (by simp) (by rw [State.reading_mem, (hpub.page one_pos).1, hr.seq]; rfl)
  obtain ⟨init, st₂, hpublish, hcommits⟩ := run_publishOnce hread hidle hresumed hsecond
    (by rw [hseq, hr.seq]; rfl)
  have haccepts' := haccepts.extend (init ++ [.ret (.publish (numbered 2 1)) (.ok ())])
  generalize st₁.mem pageNotifyEpochOffset = e at hpublish haccepts'
  have hbefore (l : PageTrace) (a b c d : PageEvent) :
      l ++ [a, b, c] ++ [d] = l ++ [a] ++ b :: [c, d] := by simp
  have hall (l r i : PageTrace) (a b c d x : PageEvent) :
      l ++ [a, b, c] ++ d :: r ++ (i ++ [x]) = l ++ [a] ++ b :: [c, d] ++ (r ++ i ++ [x]) := by
    simp
  rw [hall] at hpublish haccepts'
  rw [hbefore] at haccepts'
  obtain ⟨-, -, -, -, hwake⟩ := @notifyEpoch_correct (fun _ => 0) (.inl fun _ => rfl)
  have hj : (commits (tr ++ tr₁ ++ [.start 0 .notifyEpoch] ++ .read 0 pageNotifyEpochOffset e ::
      [.finish 0 .notifyEpoch (.epoch e), .start 0 .seqlock])).getLast? = some (numbered 1 1) := by
    rw [commits_append, commits_append, commits_append, hr.commits, hpub.commits]
    rfl
  have hk : numbered 2 1 ∈ commits (tr₂ ++ init) := by
    rw [commits_append, hcommits]
    simp
  have hkey : notifyKeyOf (numbered 2 1) ≠ notifyKeyOf (numbered 1 1) := fun h =>
    absurd (congrArg PageNotifyKey.generation h) (by decide)
  obtain ⟨hbody, hbump, hword, -⟩ := hwake rfl hpublish haccepts' hj hk hkey
  exact ⟨_, _, _, during, st₂, e, _, hpublish, haccepts', hbody (by omega), hbump, hword⟩

end K3smApis.Budget
