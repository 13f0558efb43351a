import K3smApis.PageMachine

/-!
# Seqlock safety

Along every run the writer's next seq value `q` is even and the seq word is `q`, or
`q - 1` while a publication is open or was left open by a writer that died. Each
opened publication advances `q` by 2, so a reader that loads the same even seq twice
has seen no publication open in between, and the body stood still.
-/
namespace K3smApis.Budget
open ByteImage AtomicProgram PageWriter

/-- What the writer knows of the next seq value `q`. -/
def WriterAt (q : UInt64) (x : PagePoint) : Prop :=
  match x.2 with
  | .gone => True
  | .idle w => w.resumed = true → recognised (headerAt x.1) = true ∧ w.seq = q
  | .busy .resume _ m _ _ => resumedSeq m = q
  | .busy (.publish _) w _ past _ =>
    w.resumed = true →
      recognised (headerAt x.1) = true ∧ w.seq + (if past = [] then 0 else 2) = q

/-- The page and its writer agree on the next seq value. -/
structure InStep (q : UInt64) (x : PagePoint) : Prop where
  even : q % 2 = 0
  seq : x.1 pageSeqOffset = q ∨ x.1 pageSeqOffset = q - 1
  header : recognised (headerAt x.1) = true ∨ q = 0
  writer : WriterAt q x

/-- A store outside the header line leaves the header as it is. -/
theorem recognised_update_of_le {m : PageWords} {off : ℕ} {v : UInt64} (h : pageSeqOffset ≤ off) :
    recognised (headerAt (Function.update m off v)) = recognised (headerAt m) := by
  rw [pageSeqOffset] at h
  exact recognised_congr (Function.update_of_ne (by omega) _ _)
    (Function.update_of_ne (by omega) _ _)

theorem resumedSeq_eq {q : UInt64} {x : PagePoint} (h : InStep q x) : resumedSeq x.1 = q := by
  have heven := h.even
  unfold resumedSeq
  split_ifs with hr
  · rcases h.seq with hs | hs <;> rw [hs, evened] <;> split_ifs <;> grind
  · rcases h.header with hh | hh
    · exact absurd hh hr
    · exact hh.symm

/-- A store of a publication keeps page and writer in step. -/
theorem InStep.publishStore {q : UInt64} {m m₀ : PageWords} {w : PageWriter} {s : PageSnapshot}
    {scratch : Page} {past rest : List (ℕ × UInt64)} {off : ℕ} {v : UInt64}
    (h : InStep q (m, .busy (.publish s) w m₀ past ((off, v) :: rest)))
    (hresumed : w.resumed = true) (hstore : PublishStore w s scratch past off v) :
    InStep (if opens (.store (.publish s) off v) then q + 2 else q)
      (Function.update m off v, .busy (.publish s) w m₀ (past ++ [(off, v)]) rest) := by
  have heven := h.even
  obtain ⟨hheader, hseq⟩ := h.writer hresumed
  have hle : pageSeqOffset ≤ off := by
    cases hstore with
    | odd | even => exact le_rfl
    | body _ hmem => exact le_trans (by decide) (mem_bodyStores hmem)
    | epoch => decide
  have hheader' : recognised (headerAt (Function.update m off v)) = true :=
    (recognised_update_of_le hle).trans hheader
  cases hstore with
  | odd =>
    have hq : w.seq = q := by simpa using hseq
    have hopens : opens (.store (.publish s) pageSeqOffset (w.seq + 1)) = true := by
      simp only [opens, decide_eq_true_eq, true_and]
      grind
    rw [hopens, if_pos rfl]
    refine ⟨by grind, .inr ?_, .inl hheader', fun _ => ⟨hheader', ?_⟩⟩
    · simp only [Function.update_self]
      grind
    · simp only [List.nil_append, reduceCtorEq, if_false]
      grind
  | @body past _ _ hpre hmem =>
    have hne : off ≠ pageSeqOffset := by
      have hbody : pageHeaderSize ≤ off := mem_bodyStores hmem
      rintro rfl
      exact absurd hbody (by decide)
    have hopens : opens (.store (.publish s) off v) = false := by simp [opens, hne]
    rw [hopens, if_neg (by simp)]
    refine ⟨heven, ?_, .inl hheader', fun _ => ⟨hheader', by simpa using hseq⟩⟩
    simp only [Function.update_of_ne (Ne.symm hne)]
    exact h.seq
  | even =>
    have hq : w.seq + 2 = q := by simpa using hseq
    have hopens : opens (.store (.publish s) pageSeqOffset (w.seq + 2)) = false := by
      simp only [opens, decide_eq_false_iff_not, true_and]
      grind
    rw [hopens, if_neg (by simp)]
    refine ⟨heven, .inl ?_, .inl hheader', fun _ => ⟨hheader', by simpa using hseq⟩⟩
    simpa using hq
  | epoch =>
    change InStep q _
    refine ⟨heven, ?_, .inl hheader', fun _ => ⟨hheader', by simpa using hseq⟩⟩
    simp only [Function.update_of_ne (by decide : pageSeqOffset ≠ pageNotifyEpochOffset)]
    exact h.seq

/-- One step keeps page and writer in step, an opened publication two further. -/
theorem InStep.step {q : UInt64} {x x' : PagePoint} {e : PageEvent}
    (hwf : pageSystem.WellFormed x) (h : InStep q x) (hs : pageSystem.ViewStep x e x') :
    InStep (if opens e then q + 2 else q) x' := by
  have heven := h.even
  cases hs with
  | spawn => exact ⟨h.even, h.seq, h.header, fun hr => by simp [pageSystem] at hr⟩
  | die => exact ⟨h.even, h.seq, h.header, trivial⟩
  | load | start | read | finish => exact h
  | @call m c w =>
    change InStep q _
    refine ⟨h.even, h.seq, h.header, ?_⟩
    cases c with
    | resume => exact resumedSeq_eq h
    | publish s => exact fun hr => by simpa using h.writer hr
  | @ret m c w m₀ past =>
    change InStep q _
    refine ⟨h.even, h.seq, h.header, ?_⟩
    obtain ⟨hpast, hmem⟩ := hwf
    dsimp only at hpast hmem
    rw [List.append_nil] at hpast
    cases c with
    | resume =>
      have hq : resumedSeq m₀ = q := h.writer
      intro _
      refine ⟨?_, ?_⟩
      · rw [hmem, hpast]
        exact recognised_resume w m₀
      · change (w.resume.result m₀).1.seq = q
        rw [result_resume]
        exact hq
    | publish s =>
      have hw : w.resumed = true → _ := h.writer
      change (w.publish s).result m₀ |>.1.resumed = true → _ ∧ ((w.publish s).result m₀).1.seq = q
      rcases publish_cases w m₀ s with ⟨hnone, e, hres⟩ | ⟨hresumed, scratch, hs⟩
      · -- refused: the writer is as before
        have hnil : past = [] := hpast.trans hnone
        rw [hres]
        intro hr
        simpa [hnil] using hw hr
      · have hne : past ≠ [] := by
          rw [hpast]
          change (w.publish s).stores m₀ ≠ []
          rw [stores_publish w m₀ hresumed hs]
          simp
        rw [result_publish w m₀ hresumed hs]
        intro _
        simpa [hne] using hw hresumed
  | @store m c w m₀ past rest off v =>
    obtain ⟨hpast, hmem⟩ := hwf
    dsimp only at hpast hmem
    cases c with
    | resume =>
      obtain ⟨hoff, rfl⟩ := resumeStore_of_split hpast
      have hlt := mem_headerOffsets hoff
      change InStep q _
      refine ⟨h.even, ?_, ?_, h.writer⟩
      · dsimp only
        rw [Function.update_of_ne (by omega)]
        exact h.seq
      · exact h.header.imp_left recognised_update
    | publish s =>
      obtain ⟨hresumed, scratch, -, hstore⟩ := publishStore_of_split hpast
      exact h.publishStore hresumed hstore

theorem InStep.path {q : UInt64} {x x' : PagePoint} {tr : PageTrace}
    (hwf : pageSystem.WellFormed x) (h : InStep q x) (hp : Path pageSystem.ViewStep x tr x') :
    InStep (q + 2 * UInt64.ofNat (opened tr)) x' := by
  have hall : pageSystem.WellFormed x' ∧ InStep (q + 2 * UInt64.ofNat (opened tr)) x' := by
    refine hp.invariant
      (P := fun tr x => pageSystem.WellFormed x ∧ InStep (q + 2 * UInt64.ofNat (opened tr)) x)
      ⟨hwf, by simpa [opened] using h⟩ ?_
    rintro tr x₁ e x₂ ⟨hwf₁, h₁⟩ hs
    refine ⟨hwf₁.step hs, ?_⟩
    have h₂ := h₁.step hwf₁ hs
    have hcount : q + 2 * UInt64.ofNat (opened (tr ++ [e])) =
        if opens e then q + 2 * UInt64.ofNat (opened tr) + 2
        else q + 2 * UInt64.ofNat (opened tr) := by
      rw [opened_append, UInt64.ofNat_add]
      cases he : opens e
      · simp [opened, he]
      · simp [opened, he]
        grind
    rw [hcount]
    exact h₂
  exact hall.2

theorem bodyAt_update {m : PageWords} {off : ℕ} {v : UInt64} (h : off < pageHeaderSize) :
    bodyAt (Function.update m off v) = bodyAt m := by
  apply bodyAt_congr
  intro off' hoff'
  exact Function.update_of_ne (by omega) _ _

theorem lastBody_append (m₀ : PageWords) (tr : PageTrace) {e : PageEvent}
    (h : committed e = none) : lastBody m₀ (tr ++ [e]) = lastBody m₀ tr := by
  simp [lastBody, commits, h]

theorem lastBody_commit (m₀ : PageWords) (tr : PageTrace) {e : PageEvent} {s : PageSnapshot}
    (h : committed e = some s) : lastBody m₀ (tr ++ [e]) = encodedBody s := by
  simp [lastBody, commits, h]

/-- While a publication is open seq is odd. -/
theorem InStep.open_seq {q : UInt64} {m m₀ : PageWords} {w : PageWriter} {s : PageSnapshot}
    {scratch : Page} {past tail rest : List (ℕ × UInt64)}
    (h : InStep q (m, .busy (.publish s) w m₀ past rest)) (hresumed : w.resumed = true)
    (hpast : past = (pageSeqOffset, w.seq + 1) :: tail) (hpre : tail <+: bodyStores scratch)
    (hmem : m = applyStores m₀ past) : m pageSeqOffset % 2 = 1 := by
  have heven := h.even
  have hq : w.seq + 2 = q := by simpa [hpast] using (h.writer hresumed).2
  have hseq : m pageSeqOffset = w.seq + 1 := by
    rw [hmem, hpast]
    exact seq_of_past m₀ hpre
  grind

/-- Whenever seq is even the body is that of the last completed publication: body
words change only while seq is odd, and the even store finds them all stored. -/
theorem body_step {m₀ : PageWords} {tr : PageTrace} {q : UInt64} {x x' : PagePoint} {e : PageEvent}
    (hwf : pageSystem.WellFormed x) (h : InStep q x) (hs : pageSystem.ViewStep x e x')
    (hbody : x.1 pageSeqOffset % 2 = 0 → bodyAt x.1 = lastBody m₀ tr) :
    x'.1 pageSeqOffset % 2 = 0 → bodyAt x'.1 = lastBody m₀ (tr ++ [e]) := by
  have heven := h.even
  cases hs with
  | spawn | die | call | load | ret | start | read | finish =>
    rw [lastBody_append m₀ tr rfl]
    exact hbody
  | @store m c w m' past rest off v =>
    obtain ⟨hpast, hmem⟩ := hwf
    dsimp only at hpast hmem hbody ⊢
    cases c with
    | resume =>
      obtain ⟨hoff, rfl⟩ := resumeStore_of_split hpast
      have hlt := mem_headerOffsets hoff
      rw [lastBody_append m₀ tr rfl, bodyAt_update (lt_trans hlt (by decide)),
        Function.update_of_ne (by omega)]
      exact hbody
    | publish s =>
      obtain ⟨hresumed, scratch, hs, hstore⟩ := publishStore_of_split hpast
      cases hstore with
      | odd =>
        have hq : w.seq = q := by simpa using (h.writer hresumed).2
        rw [Function.update_self]
        intro hz
        grind
      | body hpre hbodyStore =>
        have hle : pageHeaderSize ≤ off := mem_bodyStores hbodyStore
        have hodd := h.open_seq hresumed rfl hpre hmem
        have hne : pageSeqOffset ≠ off := by
          rintro rfl
          exact absurd hle (by decide)
        rw [Function.update_of_ne hne]
        intro hz
        grind
      | even =>
        have hq : w.seq + 2 = q := by simpa using (h.writer hresumed).2
        have hcommit : committed (.store (.publish s) pageSeqOffset (w.seq + 2)) = some s := by
          simp [committed, hq, heven]
        rw [lastBody_commit m₀ tr hcommit, bodyAt_update (by decide), hmem, body_of_past]
        intro _
        simp [encodedBody, hs]
      | epoch =>
        rw [lastBody_append m₀ tr (by simp [committed, pageNotifyEpochOffset, pageSeqOffset]),
          bodyAt_update (by decide), Function.update_of_ne (by decide)]
        exact hbody

/-- The words a seqlock read looks at. -/
def Guarded (off : ℕ) : Prop := off = pageSeqOffset ∨ pageHeaderSize ≤ off

/-- From an even seq on, no guarded word is stored until a publication opens. -/
theorem quiet_store {q : UInt64} {x x' : PagePoint} {c : PageCall} {off : ℕ} {v : UInt64}
    (hwf : pageSystem.WellFormed x) (h : InStep q x)
    (hs : pageSystem.ViewStep x (.store c off v) x') (hq : x.1 pageSeqOffset % 2 = 0)
    (hno : opens (.store c off v) = false) : ¬Guarded off := by
  have heven := h.even
  intro hg
  cases hs with
  | @store m _ w m' past rest =>
    obtain ⟨hpast, hmem⟩ := hwf
    dsimp only at hpast hmem hq
    cases c with
    | resume =>
      have hlt := mem_headerOffsets (resumeStore_of_split hpast).1
      simp only [Guarded, pageSeqOffset, pageHeaderSize] at hg hlt
      omega
    | publish s =>
      obtain ⟨hresumed, scratch, -, hstore⟩ := publishStore_of_split hpast
      cases hstore with
      | odd =>
        have hwq : w.seq = q := by simpa using (h.writer hresumed).2
        simp only [opens, decide_eq_false_iff_not, true_and] at hno
        grind
      | body hpre _ =>
        have hodd := h.open_seq hresumed rfl hpre hmem
        grind
      | even =>
        have hodd := h.open_seq hresumed rfl List.prefix_rfl hmem
        grind
      | epoch => simp [Guarded, pageNotifyEpochOffset, pageSeqOffset, pageHeaderSize] at hg

theorem quiet_step {q : UInt64} {x x' : PagePoint} {e : PageEvent}
    (hwf : pageSystem.WellFormed x) (h : InStep q x) (hs : pageSystem.ViewStep x e x')
    (hq : x.1 pageSeqOffset % 2 = 0) (hno : opens e = false) {off' : ℕ} (hg : Guarded off') :
    x'.1 off' = x.1 off' := by
  cases e with
  | store c off v =>
    have hfree := quiet_store hwf h hs hq hno
    cases hs with
    | store =>
      apply Function.update_of_ne
      rintro rfl
      exact hfree hg
  | spawn | die | call _ | load _ _ | ret _ _ | start _ _ | read _ _ _ | finish _ _ _ =>
    cases hs
    rfl

/-- Until a publication opens no guarded word is stored, and what a reader loads of them
is what they held at first. -/
theorem quiet_path {q : UInt64} {x x' : PagePoint} {tr : PageTrace}
    (hwf : pageSystem.WellFormed x) (h : InStep q x) (hq : x.1 pageSeqOffset % 2 = 0)
    (hp : Path pageSystem.ViewStep x tr x') (hno : opened tr = 0) :
    (∀ off, Guarded off → x'.1 off = x.1 off) ∧
      (∀ i l v, (l, v) ∈ readsOf i tr → Guarded l → v = x.1 l) ∧
      ∀ c off v, .store c off v ∈ tr → ¬Guarded off := by
  induction hp with
  | nil => exact ⟨fun _ _ => rfl, by simp [readsOf], by simp⟩
  | @snoc tr x₁ x₂ e hp hs ih =>
    rw [opened_append] at hno
    obtain ⟨hsame, hreads, hstores⟩ := ih (by omega)
    have hwf₁ := hwf.path hp
    have h₁ := h.path hwf hp
    have hq₁ : x₁.1 pageSeqOffset % 2 = 0 := by rw [hsame _ (.inl rfl), hq]
    have hopens : opens e = false := by
      have hzero : opened [e] = 0 := by omega
      simpa [opened] using hzero
    refine ⟨fun off hg => (quiet_step hwf₁ h₁ hs hq₁ hopens hg).trans (hsame off hg), ?_, ?_⟩
    · intro i l v hmem hg
      rw [readsOf_append, List.mem_append] at hmem
      rcases hmem with hmem | hmem
      · exact hreads i l v hmem hg
      · rw [mem_readsOf, List.mem_singleton] at hmem
        subst hmem
        rw [hs.of_read.2, hsame l hg]
    · intro c off v hmem
      rcases List.mem_append.mp hmem with hmem | hmem
      · exact hstores c off v hmem
      · rw [List.mem_singleton] at hmem
        subst hmem
        exact quiet_store hwf₁ h₁ hs hq₁ hopens

/-- Seq returns to an even value only when no publication has opened, or 2^63 have. -/
theorem opened_eq_zero {q : UInt64} {x x' : PagePoint} {tr : PageTrace}
    (hwf : pageSystem.WellFormed x) (h : InStep q x) (hq : x.1 pageSeqOffset % 2 = 0)
    (hp : Path pageSystem.ViewStep x tr x') (hsame : x'.1 pageSeqOffset = x.1 pageSeqOffset)
    (hfew : opened tr < 2 ^ 63) : opened tr = 0 := by
  have heven := h.even
  have hx := h.seq
  have hx' := (h.path hwf hp).seq
  rw [hsame] at hx'
  have hback : 2 * UInt64.ofNat (opened tr) = 0 := by grind
  have hwrap := congrArg UInt64.toNat hback
  rw [UInt64.toNat_mul, UInt64.toNat_ofNat'] at hwrap
  change 2 * (opened tr % 2 ^ 64) % 2 ^ 64 = 0 at hwrap
  omega

/-- A reader that loads the same even seq before and after the body words, with fewer
than 2^63 publications opened meanwhile, has loaded the body as it stood. -/
theorem stable_body {q : UInt64} {x x' : PagePoint} {tr : PageTrace} {i : ℕ}
    {rs : List (ℕ × UInt64)} (hwf : pageSystem.WellFormed x) (h : InStep q x)
    (hq : x.1 pageSeqOffset % 2 = 0) (hp : Path pageSystem.ViewStep x tr x')
    (hreads : readsOf i tr = rs ++ [(pageSeqOffset, x.1 pageSeqOffset)])
    (hbody : rs.map Prod.fst = bodyOffsets) (hfew : opened tr < 2 ^ 63) :
    rs.map Prod.snd = bodyAt x.1 := by
  obtain ⟨pre, post, rfl, hpre, -⟩ := readsOf_split hreads
  obtain ⟨y, hp₁, hp₂⟩ := Path.split hp
  obtain ⟨z, hread, -⟩ := Path.of_cons hp₂
  have hzero : opened pre = 0 := by
    refine opened_eq_zero hwf h hq hp₁ hread.of_read.2.symm ?_
    rw [opened_append] at hfew
    omega
  have hquiet := (quiet_path hwf h hq hp₁ hzero).2.1 i
  rw [bodyAt, ← hbody, List.map_map]
  apply List.map_congr_left
  rintro ⟨l, v⟩ hmem
  have hl : l ∈ bodyOffsets := by
    rw [← hbody]
    exact List.mem_map_of_mem hmem
  exact hquiet l v (hpre ▸ hmem) (.inr (mem_bodyOffsets hl))

theorem reads_seqlockRead {rs : List (ℕ × UInt64)} {ws : List UInt64}
    (h : Reads seqlockRead rs (some ws)) :
    ∃ seq body, rs = (pageSeqOffset, seq) :: (body ++ [(pageSeqOffset, seq)]) ∧ seq % 2 = 0 ∧
      body.map Prod.fst = bodyOffsets ∧ body.map Prod.snd = ws := by
  obtain ⟨rs₁, seq, rs₂, rfl, h₁, h₂⟩ := Reads.of_bind h
  rw [Reads.of_get h₁]
  split_ifs at h₂ with hodd
  · exact absurd (Reads.of_pure h₂).2 (by simp)
  · obtain ⟨body, words, rs₃, rfl, hbody, h₃⟩ := Reads.of_bind h₂
    obtain ⟨rs₄, seq', rs₅, rfl, h₄, h₅⟩ := Reads.of_bind h₃
    obtain ⟨rfl, hans⟩ := Reads.of_pure h₅
    rw [Reads.of_get h₄]
    split_ifs at hans with hsame
    · obtain ⟨hfst, hsnd⟩ := Reads.of_loadAll hbody
      refine ⟨seq, body, by simp [hsame], by grind, hfst, ?_⟩
      rw [hsnd]
      exact (Option.some.inj hans).symm

/-- The loads of a read that accepted a body: perhaps a header check, then seq, the
body words and the same even seq again. -/
theorem reads_accepted {r : PageRead} {rs : List (ℕ × UInt64)} {ws : List UInt64}
    (h : Reads (pageSystem.read r) rs (.body (some ws))) :
    ∃ hdr seq body, rs = hdr ++ (pageSeqOffset, seq) :: (body ++ [(pageSeqOffset, seq)]) ∧
      (∀ a ∈ hdr, a.1 ≠ pageSeqOffset) ∧ seq % 2 = 0 ∧
      body.map Prod.fst = bodyOffsets ∧ body.map Prod.snd = ws := by
  cases r with
  | seqlock =>
    obtain ⟨rs₁, a, rs₂, rfl, h₁, h₂⟩ := Reads.of_bind h
    obtain ⟨rfl, hans⟩ := Reads.of_pure h₂
    obtain rfl := PageAnswer.body.inj hans
    obtain ⟨seq, body, rfl, hrest⟩ := reads_seqlockRead h₁
    exact ⟨[], seq, body, by simp, by simp, hrest⟩
  | checked =>
    obtain ⟨rs₁, a, rs₂, rfl, h₁, h₂⟩ := Reads.of_bind h
    obtain ⟨rfl, hans⟩ := Reads.of_pure h₂
    obtain rfl := PageAnswer.body.inj hans
    obtain ⟨hdr, words, rs₃, rfl, hhdr, h₃⟩ := Reads.of_bind h₁
    split_ifs at h₃ with hrec
    · obtain ⟨seq, body, rfl, hrest⟩ := reads_seqlockRead h₃
      refine ⟨hdr, seq, body, by simp, ?_, hrest⟩
      intro a ha heq
      have hmem : a.1 ∈ headerOffsets := by
        rw [← (Reads.of_loadAll hhdr).1]
        exact List.mem_map_of_mem ha
      have hlt := mem_headerOffsets hmem
      omega
    · exact absurd (Reads.of_pure h₃).2 (by simp)
  | notifyEpoch =>
    obtain ⟨rs₁, a, rs₂, rfl, h₁, h₂⟩ := Reads.of_bind h
    exact absurd (Reads.of_pure h₂).2 (by simp)

/-- In the trace `tr` the read `r` of reader `i` accepts the body words `ws`: it makes
its first seq load after `before` and returns after `during`. -/
structure Accepts (r : PageRead) (i : ℕ) (ws : List UInt64) (before during tr : PageTrace) :
    Prop where
  split : ∃ pre gap seq post, before = pre ++ .start i r :: gap ∧
    NoFinish i gap ∧ (∀ v, .read i pageSeqOffset v ∉ gap) ∧
    tr = before ++ .read i pageSeqOffset seq :: during ++
      .finish i r (.body (some ws)) :: post
  ongoing : NoFinish i during

/-- Lists split at their first element with a property split alike. -/
theorem split_unique {α : Type} {P : α → Prop} {a c : List α} {x y : α} {b d : List α}
    (h : a ++ x :: b = c ++ y :: d) (ha : ∀ z ∈ a, ¬P z) (hc : ∀ z ∈ c, ¬P z) (hx : P x)
    (hy : P y) : a = c ∧ x = y ∧ b = d := by
  induction a generalizing c with
  | nil =>
    cases c with
    | nil => simpa using h
    | cons z c =>
      obtain ⟨rfl, -⟩ := List.cons.inj h
      exact absurd hx (hc _ List.mem_cons_self)
  | cons z a ih =>
    cases c with
    | nil =>
      obtain ⟨rfl, -⟩ := List.cons.inj h
      exact absurd hy (ha _ List.mem_cons_self)
    | cons z' c =>
      obtain ⟨rfl, htail⟩ := List.cons.inj h
      obtain ⟨rfl, hrest⟩ := ih htail (fun z hz => ha z (List.mem_cons_of_mem _ hz))
        (fun z hz => hc z (List.mem_cons_of_mem _ hz))
      exact ⟨rfl, hrest⟩

/-- An accepted read as a path of the view: seq is even at its first load, and its
later loads are the body words and that seq again. -/
theorem Accepts.view {m₀ : PageWords} {tr : PageTrace} {st : PageState} {r : PageRead} {i : ℕ}
    {ws : List UInt64} {before during : PageTrace} (hrun : pageSystem.Run m₀ tr st)
    (h : Accepts r i ws before during tr) :
    ∃ x x' rs, Path pageSystem.ViewStep (m₀, .gone) before x ∧
      Path pageSystem.ViewStep x during x' ∧ x.1 pageSeqOffset % 2 = 0 ∧
      readsOf i during = rs ++ [(pageSeqOffset, x.1 pageSeqOffset)] ∧
      rs.map Prod.fst = bodyOffsets ∧ rs.map Prod.snd = ws := by
  obtain ⟨pre, gap, seq, post, rfl, hgap, hfirst, rfl⟩ := h.split
  obtain ⟨x₂, hview, -⟩ := hrun.view
  obtain ⟨x₁, hpre, -⟩ := Path.split hview
  obtain ⟨x, hx, hrest⟩ := Path.split hpre
  obtain ⟨x', hread, hduring⟩ := Path.of_cons hrest
  obtain ⟨rfl, hseq⟩ := hread.of_read
  have hno : NoFinish i (gap ++ .read i pageSeqOffset seq :: during) := by
    intro r' a hmem
    rcases List.mem_append.mp hmem with hmem | hmem
    · exact hgap r' a hmem
    · rcases List.mem_cons.mp hmem with hmem | hmem
      · simp at hmem
      · exact h.ongoing r' a hmem
  have hreads : Reads (pageSystem.read r)
      (readsOf i (gap ++ .read i pageSeqOffset seq :: during)) (.body (some ws)) := by
    have hrun' : pageSystem.Run m₀ (pre ++ .start i r ::
        (gap ++ .read i pageSeqOffset seq :: during) ++
          .finish i r (.body (some ws)) :: post) st := by
      simpa using hrun
    exact (hrun'.reads hno).2
  obtain ⟨hdr, seq', body, hrs, hhdr, heven, hfst, hsnd⟩ := reads_accepted hreads
  have hsplit : readsOf i gap ++ (pageSeqOffset, seq) :: readsOf i during =
      hdr ++ (pageSeqOffset, seq') :: (body ++ [(pageSeqOffset, seq')]) := by
    rw [← hrs, readsOf_append]
    simp [readsOf]
  have hgapReads : ∀ a ∈ readsOf i gap, ¬a.1 = pageSeqOffset := by
    intro a hmem heq
    refine hfirst a.2 (mem_readsOf.mp ?_)
    rw [← heq]
    exact hmem
  obtain ⟨-, hhead, htail⟩ := split_unique (P := fun a => a.1 = pageSeqOffset) hsplit
    hgapReads hhdr rfl rfl
  obtain rfl : seq = seq' := congrArg Prod.snd hhead
  exact ⟨x', _, body, hx, hduring, hseq ▸ heven, hseq ▸ htail, hfst, hsnd⟩

/-- The value a seq store stores. -/
def seqStored : PageEvent → Option UInt64
  | .store _ off v => if off = pageSeqOffset then some v else none
  | _ => none

/-- The last value a trace stores to seq, or the initial one. It is odd exactly while a
publication is open or was left open by a writer that died. -/
def lastSeq (m₀ : PageWords) (tr : PageTrace) : UInt64 :=
  (tr.filterMap seqStored).getLastD (m₀ pageSeqOffset)

theorem lastSeq_path {m₀ : PageWords} {view : View ℕ UInt64 PageWriter PageCall} {x : PagePoint}
    {tr : PageTrace} (hp : Path pageSystem.ViewStep (m₀, view) tr x) :
    x.1 pageSeqOffset = lastSeq m₀ tr := by
  refine hp.invariant (P := fun tr x => x.1 pageSeqOffset = lastSeq m₀ tr) rfl ?_
  intro tr x e x' ih hs
  cases hs with
  | @store m c w m' past rest off v =>
    by_cases hoff : off = pageSeqOffset
    · subst hoff
      simp [lastSeq, seqStored]
    · simp only [Function.update_of_ne (Ne.symm hoff)]
      simpa [lastSeq, seqStored, hoff] using ih
  | spawn | die | call | load | ret | start | read | finish =>
    simpa [lastSeq, seqStored] using ih

/-- Page and writer are in step from the start on a zeroed page, and on a recognised
one with any seq value. -/
theorem inStep_start {m₀ : PageWords}
    (h : recognised (headerAt m₀) = true ∨ m₀ pageSeqOffset = 0) :
    ∃ q, InStep q (m₀, .gone) := by
  by_cases hodd : m₀ pageSeqOffset % 2 = 1
  · refine ⟨m₀ pageSeqOffset + 1, by grind, .inr (by grind), .inl ?_, trivial⟩
    refine h.resolve_right ?_
    intro hz
    simp [hz] at hodd
  · exact ⟨m₀ pageSeqOffset, by grind, .inl rfl, h.imp_right id, trivial⟩

theorem body_path {m₀ : PageWords} {q : UInt64} {view : View ℕ UInt64 PageWriter PageCall}
    {x : PagePoint} {tr : PageTrace} (hwf : pageSystem.WellFormed (m₀, view))
    (h : InStep q (m₀, view)) (hp : Path pageSystem.ViewStep (m₀, view) tr x)
    (heven : x.1 pageSeqOffset % 2 = 0) : bodyAt x.1 = lastBody m₀ tr := by
  induction hp with
  | nil => rfl
  | snoc hp hs ih => exact body_step (hwf.path hp) (h.path hwf hp) hs ih heven

/-- `ws` is the body `EncodePage` wrote for the last publication the trace completes,
or the initial body when it completes none. -/
def LastPublished (m₀ : PageWords) (tr : PageTrace) (ws : List UInt64) : Prop :=
  match (commits tr).getLast? with
  | some s => ∃ page, encodePage s = .ok page ∧ ws = bodyOffsets.map (wordAt page)
  | none => ws = bodyAt m₀

theorem bodyOffsets_ne_nil : bodyOffsets ≠ [] := by
  intro h
  have hlen := congrArg List.length h
  simp [bodyOffsets, wordOffsets, pageBodyEnd_eq, pageHeaderSize] at hlen

theorem lastPublished_of_lastBody {m₀ m : PageWords} {tr : PageTrace}
    (h : bodyAt m = lastBody m₀ tr) : LastPublished m₀ tr (bodyAt m) := by
  unfold LastPublished
  unfold lastBody at h
  cases hlast : (commits tr).getLast? with
  | none => simpa [hlast] using h
  | some s =>
    simp only [hlast, encodedBody] at h ⊢
    cases hs : encodePage s with
    | ok page => exact ⟨page, rfl, by simpa [hs] using h⟩
    | error e => exact absurd (by simpa [hs, bodyAt] using h) bodyOffsets_ne_nil

/-- An accepted body is that of the last publication completed before the read. -/
theorem Accepts.lastPublished {m₀ : PageWords} {q : UInt64} (hstart : InStep q (m₀, .gone))
    {tr : PageTrace} {st : PageState} (hrun : pageSystem.Run m₀ tr st) {r : PageRead} {i : ℕ}
    {ws : List UInt64} {before during : PageTrace} (hread : Accepts r i ws before during tr)
    (hfew : opened during < 2 ^ 63) : LastPublished m₀ before ws := by
  have hwf : pageSystem.WellFormed (m₀, .gone) := trivial
  obtain ⟨x, x', rs, hbefore, hduring, heven, hreads, hfst, rfl⟩ := hread.view hrun
  have hx := hstart.path hwf hbefore
  rw [stable_body (hwf.path hbefore) hx heven hduring hreads hfst hfew]
  exact lastPublished_of_lastBody (body_path hwf hstart hbefore heven)

/-- Seqlock safety. On a zeroed page or a recognised one with any seq value, however
writers publish, die and resume and readers interleave with them, a read with fewer
than 2^63 publications opened during it that accepts returns exactly the body of the
last publication completed before its first seq load, or the initial body. No
publication is open at that load, so after a writer dies inside one no read is
accepted until another is completed. -/
theorem seqlock_safety {m₀ : PageWords}
    (hinit : (∀ off, m₀ off = 0) ∨ recognised (headerAt m₀) = true)
    {tr : PageTrace} {st : PageState} (hrun : pageSystem.Run m₀ tr st) {r : PageRead} {i : ℕ}
    {ws : List UInt64} {before during : PageTrace} (hread : Accepts r i ws before during tr)
    (hfew : opened during < 2 ^ 63) :
    LastPublished m₀ before ws ∧ lastSeq m₀ before % 2 = 0 := by
  obtain ⟨q, hstart⟩ := inStep_start (hinit.symm.imp_right (fun h => h _))
  obtain ⟨x, x', rs, hbefore, -, heven, -⟩ := hread.view hrun
  exact ⟨hread.lastPublished hstart hrun hfew, lastSeq_path hbefore ▸ heven⟩

-- a run in which a reader reads alone, between two steps of the writer

theorem loadEvents_seqlockRead (i : ℕ) {m : PageWords} (h : m pageSeqOffset % 2 = 0) :
    seqlockRead.stores m = [] ∧ seqlockRead.result m = some (bodyAt m) ∧
      seqlockRead.loadEvents i m =
        (.read i pageSeqOffset (m pageSeqOffset) ::
          (bodyOffsets.map (fun off => .read i off (m off)) ++
            [.read i pageSeqOffset (m pageSeqOffset)]) : PageTrace) := by
  have hodd : m pageSeqOffset % 2 ≠ 1 := by grind
  refine ⟨by simp [seqlockRead, hodd], by simp [seqlockRead, hodd, bodyAt], ?_⟩
  rw [seqlockRead, Program.loadEvents_bind i (Program.stores_get _ m), Program.result_get,
    if_neg hodd, Program.loadEvents_bind i (Program.stores_loadAll _ m),
    Program.loadEvents_bind i (Program.stores_get _ m)]
  simp

/-- A reader that is not interrupted accepts the body of the memory. -/
theorem run_seqlockRead {m₀ : PageWords} {tr : PageTrace} {st : PageState}
    (hrun : pageSystem.Run m₀ tr st) (i : ℕ) (hfree : st.reader i = none)
    (heven : st.mem pageSeqOffset % 2 = 0) :
    ∃ during tr', pageSystem.Run m₀ (tr ++ .start i .seqlock :: tr') (st.reading i none) ∧
      opened during = 0 ∧ Accepts .seqlock i (bodyAt st.mem) (tr ++ [.start i .seqlock]) during
        (tr ++ .start i .seqlock :: tr') := by
  obtain ⟨hstores, hresult, hevents⟩ := loadEvents_seqlockRead i heven
  refine ⟨bodyOffsets.map (fun off => .read i off (st.mem off)) ++
    [.read i pageSeqOffset (st.mem pageSeqOffset)],
    seqlockRead.loadEvents i st.mem ++
      [.finish i .seqlock (.body (some (bodyAt st.mem)))], ?_⟩
  have hstart := pageSystem.step_start .seqlock hfree
  have hloads :=
    pageSystem.run_loads st i .seqlock (p := seqlockRead) (fun a => pure (.body a)) hstores
  rw [hresult] at hloads
  have hfinish := pageSystem.step_finish st i .seqlock (.body (some (bodyAt st.mem)))
  refine ⟨hrun.append (.cons hstart (hloads.append (.cons hfinish .nil))), ?_, ?_⟩
  · rw [opened_append]
    simp [opened, opens, List.countP_eq_zero]
  · refine ⟨⟨tr, [], st.mem pageSeqOffset, [], by simp, by simp [NoFinish], by simp, ?_⟩, ?_⟩
    · rw [hevents]
      simp
    · simp [NoFinish]

/-- What comes after a read does not matter to it. -/
theorem Accepts.extend {r : PageRead} {i : ℕ} {ws : List UInt64} {before during tr : PageTrace}
    (h : Accepts r i ws before during tr) (later : PageTrace) :
    Accepts r i ws before during (tr ++ later) := by
  obtain ⟨pre, gap, seq, post, hbefore, hgap, hfirst, rfl⟩ := h.split
  exact ⟨⟨pre, gap, seq, post ++ later, hbefore, hgap, hfirst, by simp⟩, h.ongoing⟩

/-- What is read off a publication's stores to the seq word is read off two of them: the store
that opens it and the store that completes it. -/
theorem filterMap_publish {w : PageWriter} {s : PageSnapshot} {scratch : Page} {γ : Type}
    {f : PageEvent → Option γ} (m : PageWords) (hw : w.resumed = true)
    (hs : encodePage s = .ok scratch) (hcall : ∀ c, f (.call c) = none)
    (hload : ∀ c l, f (.load c l) = none) (hret : ∀ c b, f (.ret c b) = none)
    (hother : ∀ off v, off ≠ pageSeqOffset → f (.store (.publish s) off v) = none) :
    (.call (.publish s) :: (w.publish s).callEvents (.publish s) m).filterMap f =
      [w.seq + 1, w.seq + 2].filterMap (fun v => f (.store (.publish s) pageSeqOffset v)) := by
  have hbody : (bodyStores scratch).filterMap (fun x => f (.store (.publish s) x.1 x.2)) = [] := by
    rw [List.filterMap_eq_nil_iff]
    intro x hx
    have hle := mem_bodyStores hx
    exact hother _ _ (ne_of_gt (lt_of_lt_of_le (by decide) hle))
  have hnotify : (if w.due s then [(pageNotifyEpochOffset, w.epoch + 1)] else []).filterMap
      (fun x => f (.store (.publish s) x.1 x.2)) = [] := by
    split_ifs
    · exact List.filterMap_cons_none (hother _ _ (by simp [pageNotifyEpochOffset, pageSeqOffset]))
    · rfl
  rw [List.filterMap_cons_none (hcall _), Program.filterMap_callEvents hload hret,
    stores_publish w m hw hs]
  simp only [List.filterMap_cons, List.filterMap_append, List.filterMap_nil, hbody, hnotify,
    List.nil_append]

/-- The stores of a publication complete it. -/
theorem commits_publish {w : PageWriter} {s : PageSnapshot} {scratch : Page} (m : PageWords)
    (hw : w.resumed = true) (hs : encodePage s = .ok scratch) (heven : w.seq % 2 = 0) :
    commits (.call (.publish s) :: (w.publish s).callEvents (.publish s) m) = [s] := by
  have hodd : (w.seq + 1) % 2 ≠ 0 := by grind
  have htwo : (w.seq + 2) % 2 = 0 := by grind
  rw [commits, filterMap_publish m hw hs (fun _ => rfl) (fun _ _ => rfl) (fun _ _ => rfl)
    (fun off v hoff => by simp [committed, hoff])]
  simp [committed, hodd, htwo]

/-- They open it once. -/
theorem opened_publish {w : PageWriter} {s : PageSnapshot} {scratch : Page} (m : PageWords)
    (hw : w.resumed = true) (hs : encodePage s = .ok scratch) (heven : w.seq % 2 = 0) :
    opened (.call (.publish s) :: (w.publish s).callEvents (.publish s) m) = 1 := by
  have hodd : (w.seq + 1) % 2 = 1 := by grind
  have htwo : (w.seq + 2) % 2 ≠ 1 := by grind
  rw [opened, List.countP_eq_length_filter, ← List.filterMap_eq_filter,
    filterMap_publish m hw hs (fun _ => rfl) (fun _ _ => rfl) (fun _ _ => rfl)
      (fun off v hoff => by simp [opens, hoff])]
  simp [Option.guard, opens, hodd, htwo]

theorem commits_resume (w : PageWriter) (m : PageWords) :
    commits (.call .resume :: w.resume.callEvents .resume m) = [] := by
  have hcall : commits [(.call .resume : PageEvent)] = [] := rfl
  rw [← List.singleton_append, commits_append, hcall, commits,
    Program.filterMap_callEvents (fun _ _ => rfl) (fun _ _ => rfl)]
  simp [committed]

/-- The seq word after a publication. -/
theorem final_publish_seq {w : PageWriter} {s : PageSnapshot} {scratch : Page} (m : PageWords)
    (hw : w.resumed = true) (hs : encodePage s = .ok scratch) :
    (w.publish s).final m pageSeqOffset = w.seq + 2 := by
  rw [Program.final, stores_publish w m hw hs, ← List.cons_append, applyStores_append,
    applyStores_cons]
  split_ifs
  · simp [pageNotifyEpochOffset, pageSeqOffset]
  · simp

/-- The first publication on a zeroed page. -/
theorem run_firstPublication : ∃ tr st, pageSystem.Run (fun _ => 0) tr st ∧
    st.reader = (fun _ => none) ∧ st.mem pageSeqOffset = 2 ∧ commits tr = [headerSnapshot] := by
  have hstart : pageSystem.Run (fun _ => 0) [] (.start (fun _ => 0)) := .nil
  have hspawn := hstart.snoc (pageSystem.step_spawn rfl)
  have hresume := System.Run.call hspawn rfl .resume
  have hw : (pageSystem.fresh.resume.result (fun _ => 0)).1 = { resumed := true } := by
    rw [result_resume]
    rfl
  have hpublish := System.Run.call hresume (congrArg Writer.idle hw) (.publish headerSnapshot)
  refine ⟨_, _, hpublish, rfl, ?_, ?_⟩
  · exact final_publish_seq (w := { resumed := true }) _ rfl encodeHeader_ok
  · rw [commits_append, commits_append]
    change _ ++ commits (.call .resume :: pageSystem.fresh.resume.callEvents .resume _) ++
      commits (.call (.publish headerSnapshot) ::
        (publish { resumed := true } headerSnapshot).callEvents (.publish headerSnapshot) _) = _
    rw [commits_resume, commits_publish _ rfl encodeHeader_ok rfl]
    rfl

/-- A reader that comes after the first publication accepts its body. -/
theorem seqlock_safety_firstPublication : ∃ tr st before during ws,
    pageSystem.Run (fun _ => 0) tr st ∧ Accepts .seqlock 0 ws before during tr ∧
      opened during < 2 ^ 63 ∧ commits before = [headerSnapshot] ∧
      LastPublished (fun _ => 0) before ws ∧ lastSeq (fun _ => 0) before % 2 = 0 := by
  obtain ⟨tr, st, hrun, hfree, hseq, hcommits⟩ := run_firstPublication
  obtain ⟨during, tr', hrun', hzero, hread⟩ :=
    run_seqlockRead hrun 0 (by rw [hfree]) (by rw [hseq]; rfl)
  have hfew : opened during < 2 ^ 63 := by omega
  have hsafe := seqlock_safety (.inl fun _ => rfl) hrun' hread hfew
  refine ⟨_, _, _, during, _, hrun', hread, hfew, ?_, hsafe⟩
  rw [commits_append, hcommits]
  rfl

end K3smApis.Budget
