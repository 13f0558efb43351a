import K3smApis.SeqlockSafety

/-!
# Taking over a page with arbitrary content

Over a header it does not recognise, `Resume` restarts the writer's private seq at 0
and leaves the seq word of the page alone. An odd word does no harm, because no reader
accepts before the first publication. An even word that is not 0 does: the writer's
own values reach it again, with other body words.
-/
namespace K3smApis.Budget
open ByteImage AtomicProgram PageWriter

/-- The seq word still has the odd value it had at the start, and the writer's next seq
value is some even one. -/
structure LeftOdd (x : PagePoint) : Prop where
  seq : x.1 pageSeqOffset % 2 = 1
  writer : match x.2 with
    | .gone => True
    | .idle w => w.resumed = true → recognised (headerAt x.1) = true ∧ w.seq % 2 = 0
    | .busy .resume _ m _ _ => resumedSeq m % 2 = 0
    | .busy (.publish _) w _ past _ => w.resumed = true →
      recognised (headerAt x.1) = true ∧ w.seq % 2 = 0 ∧ past = []

theorem resumedSeq_even {m : PageWords} (h : m pageSeqOffset % 2 = 1) : resumedSeq m % 2 = 0 := by
  unfold resumedSeq evened
  split_ifs <;> grind

/-- The seq word keeps its odd value until the first publication opens, and from
there page and writer are in step. -/
theorem LeftOdd.step {x x' : PagePoint} {e : PageEvent} (hwf : pageSystem.WellFormed x)
    (h : LeftOdd x) (hs : pageSystem.ViewStep x e x') :
    x'.1 pageSeqOffset % 2 = 1 ∧ (LeftOdd x' ∨ ∃ q, InStep q x') := by
  cases hs with
  | spawn => exact ⟨h.seq, .inl ⟨h.seq, fun hr => by simp [pageSystem] at hr⟩⟩
  | die => exact ⟨h.seq, .inl ⟨h.seq, trivial⟩⟩
  | load | start | read | finish => exact ⟨h.seq, .inl h⟩
  | @call m c w =>
    refine ⟨h.seq, .inl ⟨h.seq, ?_⟩⟩
    cases c with
    | resume => exact resumedSeq_even h.seq
    | publish s => exact fun hr => by simpa using h.writer hr
  | @ret m c w m₀ past =>
    refine ⟨h.seq, .inl ⟨h.seq, ?_⟩⟩
    obtain ⟨hpast, hmem⟩ := hwf
    dsimp only at hpast hmem
    rw [List.append_nil] at hpast
    cases c with
    | resume =>
      have hq : resumedSeq m₀ % 2 = 0 := h.writer
      intro _
      refine ⟨?_, ?_⟩
      · rw [hmem, hpast]
        exact recognised_resume w m₀
      · change (w.resume.result m₀).1.seq % 2 = 0
        rw [result_resume]
        exact hq
    | publish s =>
      have hw : w.resumed = true → _ := h.writer
      change ((w.publish s).result m₀).1.resumed = true → _ ∧
        ((w.publish s).result m₀).1.seq % 2 = 0
      rcases publish_cases w m₀ s with ⟨-, e, hres⟩ | ⟨hresumed, scratch, hs⟩
      · rw [hres]
        exact fun hr => ⟨(hw hr).1, (hw hr).2.1⟩
      · -- an accepted publication has opened, and then the odd value is gone
        have hnil : (w.publish s).stores m₀ = [] := by
          rw [← show past = (w.publish s).stores m₀ from hpast]
          exact (hw hresumed).2.2
        rw [stores_publish w m₀ hresumed hs] at hnil
        simp at hnil
  | @store m c w m₀ past rest off v =>
    obtain ⟨hpast, hmem⟩ := hwf
    dsimp only at hpast hmem
    cases c with
    | resume =>
      obtain ⟨hoff, rfl⟩ := resumeStore_of_split hpast
      have hlt := mem_headerOffsets hoff
      have hseq : Function.update m off (pageABI.headerWord off) pageSeqOffset % 2 = 1 := by
        rw [Function.update_of_ne (by omega)]
        exact h.seq
      exact ⟨hseq, .inl ⟨hseq, h.writer⟩⟩
    | publish s =>
      obtain ⟨hresumed, scratch, -, hstore⟩ := publishStore_of_split hpast
      obtain ⟨hheader, heven, rfl⟩ := h.writer hresumed
      cases hstore with
      | odd =>
        have hheader' : recognised (headerAt (Function.update m pageSeqOffset (w.seq + 1))) =
            true := (recognised_update_of_le le_rfl).trans hheader
        simp only [Function.update_self]
        refine ⟨by grind, .inr ⟨w.seq + 2, by grind, .inr ?_, .inl hheader',
          fun _ => ⟨hheader', by simp⟩⟩⟩
        simp only [Function.update_self]
        grind

/-- The page may be taken over without harm: its header is recognised, or its seq word
is odd or 0. -/
def SafeToResume (m : PageWords) : Prop :=
  recognised (headerAt m) = true ∨ m pageSeqOffset % 2 = 1 ∨ m pageSeqOffset = 0

instance : DecidablePred SafeToResume := fun m =>
  inferInstanceAs (Decidable (recognised (headerAt m) = true ∨ _ ∨ _))

/-- What holds along every run from such a page. -/
structure TakenOver (m₀ : PageWords) (tr : PageTrace) (x : PagePoint) : Prop where
  wellFormed : pageSystem.WellFormed x
  seq : LeftOdd x ∨ ∃ q, InStep q x
  body : x.1 pageSeqOffset % 2 = 0 → bodyAt x.1 = lastBody m₀ tr

theorem takenOver_path {m₀ : PageWords} (h : SafeToResume m₀) {tr : PageTrace} {x : PagePoint}
    (hp : Path pageSystem.ViewStep (m₀, .gone) tr x) : TakenOver m₀ tr x := by
  refine hp.invariant (P := TakenOver m₀) ⟨trivial, ?_, fun _ => rfl⟩ ?_
  · rcases h with h | h | h
    · exact .inr (inStep_start (.inl h))
    · exact .inl ⟨h, trivial⟩
    · exact .inr (inStep_start (.inr h))
  · intro tr x e x' ih hs
    have hwf := ih.wellFormed
    rcases ih.seq with hodd | ⟨q, hq⟩
    · obtain ⟨hodd', hnext⟩ := hodd.step hwf hs
      refine ⟨hwf.step hs, hnext, fun heven => ?_⟩
      grind
    · exact ⟨hwf.step hs, .inr ⟨_, hq.step hwf hs⟩, body_step hwf hq hs ih.body⟩

/-- The words are those the page had at first, or those of one publication. -/
def Unmixed (m₀ : PageWords) (tr : PageTrace) (ws : List UInt64) : Prop :=
  ws = bodyAt m₀ ∨ ∃ s ∈ commits tr, ws = encodedBody s

/-- No reader that checks the header and then follows the seqlock protocol accepts a
body that mixes words, with fewer than 2^63 publications during its read. -/
def NoTornRead (m₀ : PageWords) : Prop :=
  ∀ {tr : PageTrace} {st : PageState} {i : ℕ} {ws : List UInt64} {before during : PageTrace},
    pageSystem.Run m₀ tr st → Accepts .checked i ws before during tr →
    opened during < 2 ^ 63 → Unmixed m₀ tr ws

/-- The seq word never returns to an even value it has already held while a body word
was stored in between, with fewer than 2^63 publications. -/
def SeqNeverReused (m₀ : PageWords) : Prop :=
  ∀ {pre mid post : PageTrace} {st : PageState}, pageSystem.Run m₀ (pre ++ mid ++ post) st →
    lastSeq m₀ pre % 2 = 0 → lastSeq m₀ (pre ++ mid) = lastSeq m₀ pre → opened mid < 2 ^ 63 →
    ∀ c off v, .store c off v ∈ mid → off < pageHeaderSize

theorem lastSeq_run {m₀ : PageWords} {tr : PageTrace} {st : PageState}
    (h : pageSystem.Run m₀ tr st) : st.mem pageSeqOffset = lastSeq m₀ tr := by
  obtain ⟨x, hview, hx⟩ := h.view
  rw [hx.1]
  exact lastSeq_path hview

theorem TakenOver.inStep {m₀ : PageWords} {tr : PageTrace} {x : PagePoint}
    (h : TakenOver m₀ tr x) (heven : x.1 pageSeqOffset % 2 = 0) : ∃ q, InStep q x := by
  refine h.seq.resolve_left fun hodd => ?_
  have := hodd.seq
  grind

theorem noTornRead_of_safe {m₀ : PageWords} (h : SafeToResume m₀) : NoTornRead m₀ := by
  intro tr st i ws before during hrun hread hfew
  obtain ⟨x, x', rs, hbefore, hduring, heven, hreads, hfst, rfl⟩ := hread.view hrun
  have hx := takenOver_path h hbefore
  obtain ⟨q, hq⟩ := hx.inStep heven
  rw [stable_body hx.wellFormed hq heven hduring hreads hfst hfew, hx.body heven]
  unfold lastBody
  cases hlast : (commits before).getLast? with
  | none => exact .inl rfl
  | some s =>
    obtain ⟨pre, gap, seq, post, -, -, -, rfl⟩ := hread.split
    refine .inr ⟨s, ?_, rfl⟩
    rw [commits_append, commits_append]
    exact List.mem_append_left _ (List.mem_append_left _ (List.mem_of_getLast? hlast))

theorem seqNeverReused_of_safe {m₀ : PageWords} (h : SafeToResume m₀) : SeqNeverReused m₀ := by
  intro pre mid post st hrun heven hsame hfew c off v hmem
  obtain ⟨x₂, hview, -⟩ := hrun.view
  obtain ⟨x', hmid, -⟩ := Path.split hview
  obtain ⟨x, hpre, hp⟩ := Path.split hmid
  have hx := takenOver_path h hpre
  rw [← lastSeq_path hpre] at heven hsame
  rw [← lastSeq_path hmid] at hsame
  obtain ⟨q, hq⟩ := hx.inStep heven
  have hzero := opened_eq_zero hx.wellFormed hq heven hp hsame hfew
  have hquiet := (quiet_path hx.wellFormed hq heven hp hzero).2.2 c off v hmem
  simp only [Guarded, not_or] at hquiet
  omega

-- the run that mixes words: a reader loads seq and the first body word, and the writer
-- publishes until its seq reaches the same value

theorem final_publish_body {w : PageWriter} {s : PageSnapshot} {scratch : Page} (m : PageWords)
    (hw : w.resumed = true) (hs : encodePage s = .ok scratch) :
    bodyAt ((w.publish s).final m) = bodyOffsets.map (wordAt scratch) := by
  rw [Program.final, stores_publish w m hw hs, ← List.cons_append, applyStores_append,
    applyStores_cons]
  have hseq : pageSeqOffset < pageHeaderSize := by decide
  have hnotify : pageNotifyEpochOffset < pageHeaderSize := by decide
  split_ifs
  · rw [applyStores_cons, applyStores_nil, bodyAt_update hnotify, bodyAt_update hseq, body_of_past]
  · rw [applyStores_nil, bodyAt_update hseq, body_of_past]

/-- What a run gains from `n` publications of one snapshot by its idle writer. -/
structure Publishes (m₀ : PageWords) (tr : PageTrace) (st : PageState) (w : PageWriter)
    (s : PageSnapshot) (n : ℕ) (tr' : PageTrace) (st' : PageState) : Prop where
  run : pageSystem.Run m₀ (tr ++ tr') st'
  reader : st'.reader = st.reader
  opened : opened tr' = n
  ongoing : ∀ i, NoFinish i tr'
  commits : commits tr' = List.replicate n s
  writer : ∃ w', st'.writer = .idle w' ∧ w'.resumed = true ∧ w'.seq = w.seq + 2 * UInt64.ofNat n
  page : 0 < n → st'.mem pageSeqOffset = w.seq + 2 * UInt64.ofNat n ∧
    bodyAt st'.mem = encodedBody s
  stored : 0 < n → ∃ off v, pageHeaderSize ≤ off ∧ .store (.publish s) off v ∈ tr'

theorem run_publishes {m₀ : PageWords} {tr : PageTrace} {st : PageState} {w : PageWriter}
    {s : PageSnapshot} {scratch : Page} (hrun : pageSystem.Run m₀ tr st)
    (hidle : st.writer = .idle w) (hw : w.resumed = true) (hs : encodePage s = .ok scratch)
    (heven : w.seq % 2 = 0) (n : ℕ) : ∃ tr' st', Publishes m₀ tr st w s n tr' st' := by
  induction n with
  | zero =>
    refine ⟨[], st, by simpa using hrun, rfl, rfl, by simp [NoFinish], rfl, ⟨w, hidle, hw, by simp⟩,
      by simp, by simp⟩
  | succ n ih =>
    obtain ⟨tr', st', hpub⟩ := ih
    obtain ⟨w', hidle', hw', hseq'⟩ := hpub.writer
    have heven' : w'.seq % 2 = 0 := by grind
    have hnext : w'.seq + 2 = w.seq + 2 * UInt64.ofNat (n + 1) := by
      rw [hseq', UInt64.ofNat_add]
      grind
    have hcall := System.Run.call hpub.run hidle' (.publish s)
    rw [List.append_assoc] at hcall
    refine ⟨_, _, hcall, hpub.reader, ?_, ?_, ?_, ?_, ?_, ?_⟩
    · rw [opened_append, hpub.opened]
      exact congrArg (n + ·) (opened_publish st'.mem hw' hs heven')
    · intro i r a hmem
      rcases List.mem_append.mp hmem with hmem | hmem
      · exact hpub.ongoing i r a hmem
      · exact Program.noFinish_callEvents i _ _ _ r a (by simpa using hmem)
    · rw [commits_append, hpub.commits, List.replicate_succ']
      exact congrArg (List.replicate n s ++ ·) (commits_publish st'.mem hw' hs heven')
    · have hres := result_publish w' st'.mem hw' hs
      refine ⟨((w'.publish s).result st'.mem).1, rfl, ?_⟩
      rw [hres]
      exact ⟨hw', hnext⟩
    · intro _
      refine ⟨(final_publish_seq st'.mem hw' hs).trans hnext, ?_⟩
      rw [encodedBody, hs]
      exact final_publish_body st'.mem hw' hs
    · intro _
      have hstores := stores_publish w' st'.mem hw' hs
      obtain ⟨x, hx⟩ := List.exists_mem_of_ne_nil (bodyStores scratch) fun hnil => by
        have hfst := bodyStores_fst scratch
        rw [hnil] at hfst
        exact bodyOffsets_ne_nil hfst.symm
      refine ⟨x.1, x.2, mem_bodyStores hx, ?_⟩
      refine List.mem_append_right _ (List.mem_cons_of_mem _ (Program.store_mem_callEvents ?_))
      change x ∈ (w'.publish s).stores st'.mem
      rw [hstores]
      simp [hx]

/-- A snapshot that is published with given first two body words. -/
def numbered (generation period : Int64) : PageSnapshot :=
  { headerSnapshot with generation := generation, writerPeriodSeconds := period }

theorem encodePage_numbered (generation : Int64) {period : Int64} (h : 0 < period) :
    encodePage (numbered generation period) = .ok (pageOf (numbered generation period)) := by
  have hc := (encodePage_ok.mp encodeHeader_ok).1
  refine encodePage_ok.mpr ⟨⟨hc.nameLength, hc.nameNonempty, h, hc.platform, hc.level, hc.signals,
    hc.counters, hc.darwinBlock, hc.linuxBlock, fun n => ?_⟩, rfl⟩
  rw [← hc.fields n]
  cases n <;> rfl

theorem bodyOffsets_eq : bodyOffsets = 192 :: 200 :: bodyOffsets.drop 2 := by decide +kernel

theorem encodedBody_numbered (generation : Int64) {period : Int64} (h : 0 < period) :
    ∃ rest, encodedBody (numbered generation period) =
      generation.toUInt64 :: period.toUInt64 :: rest := by
  have hgeneration : pageOffset .generation = 192 := by decide +kernel
  have hperiod : pageOffset .writerPeriodSeconds = 200 := by decide +kernel
  have h₁ := fieldWord_pageOf (numbered generation period) (n := .generation) rfl
  have h₂ := fieldWord_pageOf (numbered generation period) (n := .writerPeriodSeconds) rfl
  rw [fieldWord, hgeneration] at h₁
  rw [fieldWord, hperiod] at h₂
  rw [encodedBody, encodePage_numbered generation h, bodyOffsets_eq]
  simp only [List.map_cons, h₁, h₂]
  exact ⟨_, rfl⟩

/-- Some publication differs from a page in both its first two body words. -/
theorem exists_numbered (a b : UInt64) : ∃ generation period : Int64,
    0 < period ∧ generation.toUInt64 ≠ a ∧ period.toUInt64 ≠ b := by
  refine ⟨(a + 1).toInt64, if b = 1 then 2 else 1, ?_, ?_, ?_⟩
  · split_ifs <;> decide
  · have hne : a + 1 ≠ a := by grind
    exact hne
  · split_ifs with h
    · subst h
      decide
    · exact Ne.symm h

/-- What is left of a checked read after its first body word. -/
def restRead (seq first : UInt64) : Program ℕ UInt64 PageAnswer := do
  let body ← Program.loadAll bodyOffsets.tail
  let seq' ← Program.get pageSeqOffset
  pure (.body (if seq' = seq then some (first :: body) else none))

theorem seqlockRead_eq : (seqlockRead >>= fun a => pure (.body a) : Program ℕ UInt64 PageAnswer) =
    Program.get pageSeqOffset >>= fun seq =>
      if seq % 2 = 1 then pure (.body none) else Program.get 192 >>= fun first =>
        restRead seq first := by
  rw [seqlockRead, Program.bind_assoc]
  refine congrArg _ (funext fun seq => ?_)
  split_ifs
  · rfl
  · have htail : bodyOffsets = 192 :: bodyOffsets.tail := by decide +kernel
    rw [htail, Program.loadAll_cons]
    simp only [Program.bind_assoc, restRead]
    rfl

theorem run_checkedOpening {st : PageState} {i : ℕ} (hfree : st.reader i = none)
    (hheader : recognised (headerAt st.mem) = true) (heven : st.mem pageSeqOffset % 2 = 0) :
    Path pageSystem.Step st
      (.start i .checked :: (headerOffsets.map (fun off => .read i off (st.mem off)) ++
        [.read i pageSeqOffset (st.mem pageSeqOffset), .read i 192 (st.mem 192)]))
      (st.reading i (some (.checked, restRead (st.mem pageSeqOffset) (st.mem 192)))) := by
  have hodd : st.mem pageSeqOffset % 2 ≠ 1 := by grind
  have hread : pageSystem.read .checked = Program.loadAll headerOffsets >>= fun words =>
      (if recognised (headerBytes words) then seqlockRead else pure none) >>= fun a =>
        pure (.body a) := Program.bind_assoc ..
  have hstart := pageSystem.step_start .checked hfree
  have hloads := pageSystem.run_loads st i .checked (fun words =>
      (if recognised (headerBytes words) then seqlockRead else pure none) >>= fun a =>
        pure (.body a)) (Program.stores_loadAll headerOffsets _)
  rw [← hread, Program.result_loadAll, headerBytes_map, if_pos hheader, seqlockRead_eq,
    Program.loadEvents_loadAll] at hloads
  have hseq := pageSystem.run_loads st i .checked (fun seq =>
      if seq % 2 = 1 then pure (.body none) else Program.get 192 >>= fun first =>
        restRead seq first) (Program.stores_get pageSeqOffset _)
  rw [Program.result_get, if_neg hodd, Program.loadEvents_get] at hseq
  have hfirst := pageSystem.run_loads st i .checked (restRead (st.mem pageSeqOffset))
    (Program.stores_get 192 _)
  exact .cons hstart (hloads.append (hseq.append hfirst))

theorem run_restRead (st : PageState) (i : ℕ) (first : UInt64)
    (h : st.reader i = some (.checked, restRead (st.mem pageSeqOffset) first)) :
    Path pageSystem.Step st
      (bodyOffsets.tail.map (fun off => .read i off (st.mem off)) ++
        [.read i pageSeqOffset (st.mem pageSeqOffset),
          .finish i .checked (.body (some (first :: bodyOffsets.tail.map st.mem)))])
      (st.reading i none) := by
  have hloads := pageSystem.run_loads st i .checked (fun body =>
      Program.get pageSeqOffset >>= fun seq' =>
        pure (.body (if seq' = st.mem pageSeqOffset then some (first :: body) else none)))
    (Program.stores_loadAll bodyOffsets.tail _)
  rw [← restRead, State.reading_self h, Program.result_loadAll, Program.loadEvents_loadAll]
    at hloads
  have hseq := pageSystem.run_loads st i .checked (fun seq' =>
      pure (.body (if seq' = st.mem pageSeqOffset then
        some (first :: bodyOffsets.tail.map st.mem) else none)))
    (Program.stores_get pageSeqOffset _)
  rw [Program.result_get, if_pos rfl] at hseq
  have hfinish := pageSystem.step_finish st i .checked
    (.body (some (first :: bodyOffsets.tail.map st.mem)))
  exact hloads.append (hseq.append (.cons hfinish .nil))

/-- `Resume` stores to the header line only. -/
theorem final_resume (w : PageWriter) (m : PageWords) {off : ℕ} (h : pageSeqOffset ≤ off) :
    w.resume.final m off = m off := by
  rw [Program.final, resume_eq, resumeAs, stores_resumeWith]
  apply applyStores_of_not_mem
  intro x hx
  obtain ⟨off', hoff', rfl⟩ := List.mem_map.mp hx
  have := mem_headerOffsets (mem_headerOrder.mp hoff')
  dsimp only
  omega

theorem not_safeToResume {m : PageWords} (h : ¬SafeToResume m) :
    recognised (headerAt m) = false ∧ m pageSeqOffset % 2 = 0 ∧ m pageSeqOffset ≠ 0 := by
  simp only [SafeToResume, not_or, Bool.not_eq_true] at h
  obtain ⟨hheader, hodd, hzero⟩ := h
  exact ⟨hheader, by grind, hzero⟩

/-- An even value that is not 0 is reached from 0 after fewer than 2^63 publications. -/
theorem exists_publications {seq : UInt64} (heven : seq % 2 = 0) (hne : seq ≠ 0) :
    ∃ n, 0 < n ∧ n < 2 ^ 63 ∧ 0 + 2 * UInt64.ofNat n = seq := by
  have hmod : seq.toNat % 2 = 0 := congrArg UInt64.toNat heven
  have hpos : seq.toNat ≠ 0 := fun h => hne (UInt64.toNat_inj.mp h)
  have hlt := seq.toNat_lt
  refine ⟨seq.toNat / 2, by omega, by omega, ?_⟩
  rw [UInt64.zero_add, ← UInt64.toNat_inj, UInt64.toNat_mul, UInt64.toNat_ofNat']
  simp only [UInt64.reduceToNat]
  omega

/-- The writer has resumed over a header it does not recognise. -/
structure Restarted (m₀ : PageWords) (tr : PageTrace) (st : PageState) (w : PageWriter) :
    Prop where
  run : pageSystem.Run m₀ tr st
  writer : st.writer = .idle w
  resumed : w.resumed = true
  seq : w.seq = 0
  readers : ∀ i, st.reader i = none
  header : recognised (headerAt st.mem) = true
  words : ∀ off, pageSeqOffset ≤ off → st.mem off = m₀ off
  commits : commits tr = []

theorem run_restart {m₀ : PageWords} (h : recognised (headerAt m₀) = false) :
    ∃ tr st w, Restarted m₀ tr st w := by
  have hstart : pageSystem.Run m₀ [] (.start m₀) := .nil
  have hspawn := hstart.snoc (pageSystem.step_spawn rfl)
  have hresume := System.Run.call hspawn rfl .resume
  have hw := result_resume pageSystem.fresh m₀
  refine ⟨_, _, _, hresume, congrArg (fun x => Writer.idle x.1) hw, rfl, ?_, fun _ => rfl,
    recognised_resume _ _, fun off hoff => final_resume _ _ hoff, ?_⟩
  · simp [resumedSeq, h]
  · rw [commits_append]
    change commits [.spawn] ++
      commits (.call .resume :: pageSystem.fresh.resume.callEvents .resume _) = []
    rw [commits_resume]
    rfl

theorem not_seqNeverReused {m₀ : PageWords} (h : ¬SafeToResume m₀) : ¬SeqNeverReused m₀ := by
  obtain ⟨hheader, heven, hne⟩ := not_safeToResume h
  obtain ⟨tr, st, w, hr⟩ := run_restart hheader
  obtain ⟨n, hpos, hlt, hn⟩ := exists_publications heven hne
  obtain ⟨tr', st', hpub⟩ := run_publishes hr.run hr.writer hr.resumed encodeHeader_ok
    (by rw [hr.seq]; rfl) n
  rw [← hr.seq] at hn
  have hseq := lastSeq_run hr.run
  have hseq' := lastSeq_run hpub.run
  rw [hr.words _ le_rfl] at hseq
  rw [(hpub.page hpos).1, hn] at hseq'
  obtain ⟨off, v, hoff, hmem⟩ := hpub.stored hpos
  intro hnever
  have hrun := hpub.run
  rw [← List.append_nil (tr ++ tr')] at hrun
  have hlt := hnever hrun (by rw [← hseq]; exact heven) (by rw [← hseq, ← hseq'])
    (by rw [hpub.opened]; exact hlt) _ off v hmem
  omega

theorem opened_reads (i : ℕ) (offs : List ℕ) (m : PageWords) :
    opened (offs.map (fun off => .read i off (m off))) = 0 := by
  simp [opened, opens, List.countP_eq_zero]

theorem commits_reads (i : ℕ) (offs : List ℕ) (m : PageWords) :
    commits (offs.map (fun off => .read i off (m off))) = [] := by
  simp [commits, committed, List.filterMap_eq_nil_iff]

/-- A reader accepts the first body word from before `Resume` and the other words of the
only snapshot published. -/
theorem run_tornRead {m₀ : PageWords} (h : ¬SafeToResume m₀) {s : PageSnapshot} {page : Page}
    (hs : encodePage s = .ok page) : ∃ tr st before during, pageSystem.Run m₀ tr st ∧
      Accepts .checked 0 (m₀ 192 :: (encodedBody s).tail) before during tr ∧
      opened during < 2 ^ 63 ∧ ∀ t ∈ commits tr, t = s := by
  obtain ⟨hheader, heven, hne⟩ := not_safeToResume h
  obtain ⟨tr, st, w, hr⟩ := run_restart hheader
  obtain ⟨n, hpos, hlt, hn⟩ := exists_publications heven hne
  have hopening := run_checkedOpening (i := 0) (hr.readers 0) hr.header
    (by rw [hr.words _ le_rfl]; exact heven)
  obtain ⟨tr', st', hpub⟩ := run_publishes (hr.run.append hopening) hr.writer hr.resumed hs
    (by rw [hr.seq]; rfl) n
  obtain ⟨hseq, hbody⟩ := hpub.page hpos
  have hsame : st.mem pageSeqOffset = st'.mem pageSeqOffset := by
    rw [hseq, hr.seq, hn, hr.words _ le_rfl]
  have hrest := run_restRead st' 0 (st.mem 192) (by
    rw [hpub.reader, State.reading_reader, Function.update_self, hsame])
  have htail : bodyOffsets.tail.map st'.mem = (encodedBody s).tail := by
    rw [← hbody, bodyAt, List.map_tail]
  rw [htail] at hrest
  refine ⟨_, _, tr ++ .start 0 .checked :: headerOffsets.map (fun off => .read 0 off (st.mem off)),
    .read 0 192 (st.mem 192) :: tr' ++
      (bodyOffsets.tail.map (fun off => .read 0 off (st'.mem off)) ++
        [.read 0 pageSeqOffset (st'.mem pageSeqOffset)]), hpub.run.append hrest, ?_, ?_, ?_⟩
  · rw [← hr.words 192 (by decide)]
    refine ⟨⟨tr, _, st.mem pageSeqOffset, [], rfl, by simp [NoFinish], ?_, by simp⟩, ?_⟩
    · intro v hv
      obtain ⟨off, hoff, heq⟩ := List.mem_map.mp hv
      have hlt := mem_headerOffsets hoff
      simp only [Event.read.injEq, true_and] at heq
      omega
    · intro r a hmem
      have hquiet := hpub.ongoing 0 r a
      generalize bodyOffsets.tail = offs at hmem
      simp [hquiet] at hmem
  · rw [opened_append, opened_append, opened_reads, ← List.singleton_append, opened_append,
      hpub.opened]
    simpa [opened, opens] using hlt
  · rw [commits_append, commits_append, hpub.commits, commits_append, hr.commits,
      ← List.singleton_append, commits_append, commits_append, commits_append, commits_reads,
      commits_reads]
    simp [commits, committed]

theorem not_noTornRead {m₀ : PageWords} (h : ¬SafeToResume m₀) : ¬NoTornRead m₀ := by
  obtain ⟨generation, period, hperiod, hfirst, hsecond⟩ := exists_numbered (m₀ 192) (m₀ 200)
  obtain ⟨rest, hwords⟩ := encodedBody_numbered generation hperiod
  obtain ⟨tr, st, before, during, hrun, hread, hfew, honly⟩ :=
    run_tornRead h (encodePage_numbered generation hperiod)
  intro hnever
  rcases hnever hrun hread hfew with hold | ⟨s, hs, hnew⟩
  · rw [hwords, bodyAt, bodyOffsets_eq] at hold
    simp [hsecond] at hold
  · rw [honly s hs, hwords] at hnew
    simp [Ne.symm hfirst] at hnew

/-- The seqlock survives a takeover exactly on the pages that are safe to resume: the
header is recognised, or the seq word is odd or 0. -/
theorem takeover_safe_iff (m₀ : PageWords) :
    (NoTornRead m₀ ↔ SafeToResume m₀) ∧ (SeqNeverReused m₀ ↔ SafeToResume m₀) := by
  refine ⟨⟨fun h => ?_, noTornRead_of_safe⟩, ⟨fun h => ?_, seqNeverReused_of_safe⟩⟩
  · exact Decidable.not_not.mp fun hunsafe => not_noTornRead hunsafe h
  · exact Decidable.not_not.mp fun hunsafe => not_seqNeverReused hunsafe h

/-- A page with no magic whose seq word is 2. -/
def staleSeqPage : PageWords := Function.update (fun _ => 0) pageSeqOffset 2

/-- One publication over it is enough for a torn read. -/
theorem staleSeqPage_torn : ¬NoTornRead staleSeqPage ∧ ¬SeqNeverReused staleSeqPage := by
  have hunsafe : ¬SafeToResume staleSeqPage := by decide
  exact ⟨not_noTornRead hunsafe, not_seqNeverReused hunsafe⟩

end K3smApis.Budget
