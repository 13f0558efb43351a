import K3smApis.PageHeader

/-!
# The header rewrite of `Resume`

The header line is rewritten word by word while readers run, and seq does not guard it.
What protects a reader is the order of the stores. Writers of any minors of this major
take part here, each with the body size its minor has; a writer may die after any store
and another resume over what it left.
-/
namespace K3smApis.Budget
open ByteImage AtomicProgram PageWriter

/-- A header that announces at least the body of its minor. -/
structure ValidHeader (size : UInt16 → UInt32) (m : PageWords) : Prop where
  recognised : recognised (headerAt m) = true
  sized : (size (UInt16.ofNat (abiMinorAt m))).toNat ≤ bodySizeAt m

/-- The (abiMinor, bodySize) pair of a memory's header. -/
def pairAt (m : PageWords) : ℕ × ℕ := (abiMinorAt m, bodySizeAt m)

/-- The pair a minor's own header carries. -/
def PageABI.pair (abi : PageABI) : ℕ × ℕ := (abi.minor.toNat, abi.bodySize.toNat)

/-- Whether a `Resume` of this minor stores abiMinor before bodySize. -/
def rollsBack (abi : PageABI) (m : PageWords) : Bool :=
  recognised (headerAt m) && shrinksTo abi.bodySize.toNat (headerAt m)

theorem PageABI.rollsBack_of_unrecognised (abi : PageABI) {m : PageWords}
    (h : recognised (headerAt m) = false) : rollsBack abi m = false := by
  simp [rollsBack, h]

theorem rollsBack_iff (abi : PageABI) {m : PageWords} (h : recognised (headerAt m) = true) :
    rollsBack abi m = true ↔ abi.bodySize.toNat < bodySizeAt m := by
  rw [rollsBack, h, Bool.true_and, shrinksTo, decide_eq_true_eq]
  rfl

/-- The page after the first `k` header stores of a `Resume`. -/
def headerStage (abi : PageABI) (m : PageWords) (k : ℕ) : PageWords :=
  applyStores m
    (((headerOrder (rollsBack abi m)).take k).map (fun off => (off, abi.headerWord off)))

/-- How many stores come before that of the abiMinor word. -/
def minorStore (abi : PageABI) (m : PageWords) : ℕ := if rollsBack abi m then 5 else 6

/-- How many stores come before that of the bodySize word. -/
def sizeStore (abi : PageABI) (m : PageWords) : ℕ := if rollsBack abi m then 6 else 5

theorem minorStore_first {abi : PageABI} {m : PageWords} (h : rollsBack abi m = true) :
    minorStore abi m = 5 ∧ sizeStore abi m = 6 := by
  simp [minorStore, sizeStore, h]

theorem sizeStore_first {abi : PageABI} {m : PageWords} (h : rollsBack abi m = false) :
    minorStore abi m = 6 ∧ sizeStore abi m = 5 := by
  simp [minorStore, sizeStore, h]

theorem headerOrder_idxOf (shrinks : Bool) :
    (headerOrder shrinks).idxOf 0 = 7 ∧
    (headerOrder shrinks).idxOf 8 = (if shrinks then 5 else 6) ∧
    (headerOrder shrinks).idxOf 16 = (if shrinks then 6 else 5) := by
  cases shrinks
  · rw [headerOrder_false]
    decide
  · rw [headerOrder_true]
    decide

section Stages

variable (abi : PageABI) (m : PageWords) (k : ℕ)

theorem headerStage_of_mem {off : ℕ} (h : off ∈ headerOffsets) : headerStage abi m k off =
    if (headerOrder (rollsBack abi m)).idxOf off < k then abi.headerWord off else m off := by
  rw [headerStage, applyStores_map]
  simp only [List.mem_take_iff_idxOf_lt (mem_headerOrder.mpr h)]

theorem headerStage_zero : headerStage abi m k 0 = if 7 < k then magicWord else m 0 := by
  rw [headerStage_of_mem abi m k (by decide), (headerOrder_idxOf _).1]
  rfl

theorem headerStage_eight : headerStage abi m k 8 =
    if minorStore abi m < k then abi.headerWord 8 else m 8 := by
  rw [headerStage_of_mem abi m k (by decide), (headerOrder_idxOf _).2.1, minorStore]

theorem headerStage_sixteen : headerStage abi m k 16 =
    if sizeStore abi m < k then abi.headerWord 16 else m 16 := by
  rw [headerStage_of_mem abi m k (by decide), (headerOrder_idxOf _).2.2, sizeStore]

/-- The abiMinor of every stage is the old one or the new one. -/
theorem abiMinorAt_headerStage : abiMinorAt (headerStage abi m k) =
    if minorStore abi m < k then abi.minor.toNat else abiMinorAt m := by
  have hm : abi.minor.toNat < 2 ^ 16 := abi.minor.toNat_lt
  rw [abiMinorAt_eq, abiMinorAt_eq, headerStage_eight]
  split_ifs <;> first | rfl | (rw [abi.headerWord_eight]; omega)

theorem bodySizeAt_headerStage : bodySizeAt (headerStage abi m k) =
    if sizeStore abi m < k then abi.bodySize.toNat else bodySizeAt m := by
  have hb : abi.bodySize.toNat < 2 ^ 32 := abi.bodySize.toNat_lt
  rw [bodySizeAt_eq, bodySizeAt_eq, headerStage_sixteen]
  split_ifs <;> first | rfl | (rw [abi.headerWord_sixteen]; omega)

/-- A recognised header stays recognised through all the stages. -/
theorem recognised_headerStage (h : recognised (headerAt m) = true) :
    recognised (headerAt (headerStage abi m k)) = true := by
  have hm : abi.minor.toNat < 2 ^ 16 := abi.minor.toNat_lt
  rw [recognised_iff] at h ⊢
  obtain ⟨hmagic, hmajor, hsize⟩ := h
  rw [headerStage_zero, headerStage_eight, hmagic]
  refine ⟨ite_self _, ?_⟩
  by_cases hk : minorStore abi m < k
  · rw [if_pos hk, abi.headerWord_eight]
    omega
  · rw [if_neg hk]
    exact ⟨hmajor, hsize⟩

/-- Over a header that is not recognised, the first recognised stage has the new pair. -/
theorem pairAt_headerStage_of_unrecognised (h : recognised (headerAt m) = false)
    (hstage : recognised (headerAt (headerStage abi m k)) = true) :
    pairAt (headerStage abi m k) = abi.pair := by
  obtain ⟨hminor, hsize⟩ := sizeStore_first (abi.rollsBack_of_unrecognised h)
  have hk : 6 < k := by
    by_contra hk
    have hsame : recognised (headerAt (headerStage abi m k)) = recognised (headerAt m) := by
      apply recognised_congr
      · rw [headerStage_zero, if_neg (by omega)]
      · rw [headerStage_eight, hminor, if_neg hk]
    rw [hsame, h] at hstage
    exact Bool.false_ne_true hstage
  rw [pairAt, abiMinorAt_headerStage, bodySizeAt_headerStage, hminor, hsize, if_pos hk,
    if_pos (by omega)]
  rfl

/-- Every stage over a valid header is valid. -/
theorem ValidHeader.stage {size : UInt16 → UInt32} {m : PageWords} (h : ValidHeader size m)
    (hsize : abi.bodySize = size abi.minor) : ValidHeader size (headerStage abi m k) := by
  refine ⟨recognised_headerStage abi m k h.recognised, ?_⟩
  have hold := h.sized
  have hnew : size (UInt16.ofNat abi.minor.toNat) = abi.bodySize := by
    rw [UInt16.ofNat_toNat, hsize]
  have hshrinks := rollsBack_iff abi h.recognised
  rw [abiMinorAt_headerStage, bodySizeAt_headerStage]
  by_cases hr : rollsBack abi m = true
  · have hlt := hshrinks.mp hr
    obtain ⟨hminor, hbody⟩ := minorStore_first hr
    rw [hminor, hbody]
    split_ifs with h₅ h₆
    · rw [hnew]
    · rw [hnew]
      omega
    · omega
    · exact hold
  · have hle := mt hshrinks.mpr hr
    obtain ⟨hminor, hbody⟩ := sizeStore_first (Bool.not_eq_true _ ▸ hr)
    rw [hminor, hbody]
    split_ifs with h₆ h₅
    · rw [hnew]
    · omega
    · omega
    · exact hold

end Stages

/-- `n` header reads in a row, each loading the words in ascending order. -/
def readHeaders : ℕ → Program ℕ UInt64 (List (List UInt64))
  | 0 => pure []
  | n + 1 => do
    let words ← Program.loadAll headerOffsets
    let rest ← readHeaders n
    pure (words :: rest)

/-- Resuming writers of any minors over one page, and readers of its header. -/
def headerSystem (size : UInt16 → UInt32) :
    System ℕ UInt64 PageWriter UInt16 WriterAnswer ℕ (List (List UInt64)) where
  fresh := {}
  call minor w := w.resumeAs ⟨minor, size minor⟩
  read n := readHeaders n

/-- The writer of this release is one of them. -/
theorem headerSystem_call {size : UInt16 → UInt32} (h : size pageABI.minor = pageABI.bodySize)
    (w : PageWriter) : (headerSystem size).call pageABI.minor w = w.resume := by
  rw [resume_eq]
  exact congrArg (fun body => w.resumeAs ⟨pageABI.minor, body⟩) h

/-- The stores made so far bring the page to a stage. -/
theorem applyStores_past {size : UInt16 → UInt32} {minor : UInt16} {w : PageWriter} {m : PageWords}
    {past : List (ℕ × UInt64)} (h : past <+: ((headerSystem size).call minor w).stores m) :
    applyStores m past = headerStage ⟨minor, size minor⟩ m past.length := by
  have hstores : ((headerSystem size).call minor w).stores m =
      (headerOrder (rollsBack ⟨minor, size minor⟩ m)).map
        (fun off => (off, PageABI.headerWord ⟨minor, size minor⟩ off)) := stores_resumeWith ..
  rw [hstores] at h
  rw [headerStage, List.map_take, ← List.prefix_iff_eq_take.mp h]

section Crashes

variable {size : UInt16 → UInt32} {m₀ : PageWords}
  {tr : List (Event ℕ UInt64 UInt16 WriterAnswer ℕ (List (List UInt64)))}
  {st : State ℕ UInt64 PageWriter UInt16 WriterAnswer ℕ (List (List UInt64))}

/-- The page and, inside a `Resume`, the page it started from have valid headers. -/
def HeadersValid (size : UInt16 → UInt32) (x : PageWords × View ℕ UInt64 PageWriter UInt16) :
    Prop :=
  ValidHeader size x.1 ∧ match x.2 with
    | .busy _ _ m _ _ => ValidHeader size m
    | _ => True

theorem HeadersValid.step {x x' : PageWords × View ℕ UInt64 PageWriter UInt16}
    {e : Event ℕ UInt64 UInt16 WriterAnswer ℕ (List (List UInt64))}
    (hwf : (headerSystem size).WellFormed x) (h : HeadersValid size x)
    (hs : (headerSystem size).ViewStep x e x') : HeadersValid size x' := by
  have hwf' := hwf.step hs
  cases hs with
  | spawn | die | ret => exact ⟨h.1, trivial⟩
  | call => exact ⟨h.1, h.1⟩
  | load | start | read | finish => exact h
  | @store m minor w m₁ past rest off v =>
    obtain ⟨hsplit, hmem⟩ := hwf'
    have hold : ValidHeader size m₁ := h.2
    refine ⟨?_, hold⟩
    rw [hmem, applyStores_past ⟨_, hsplit⟩]
    exact hold.stage _ _ rfl

/-- From a valid header every header the page ever holds is valid, through any sequence
of `Resume`s that may each be cut short by the death of its writer. -/
theorem validHeader_run (h : ValidHeader size m₀) (hrun : (headerSystem size).Run m₀ tr st) :
    ValidHeader size st.mem := by
  obtain ⟨x, hview, hx⟩ := hrun.view
  have hall : (headerSystem size).WellFormed x ∧ HeadersValid size x := by
    refine hview.invariant (P := fun _ x => (headerSystem size).WellFormed x ∧ HeadersValid size x)
      ⟨trivial, h, trivial⟩ ?_
    intro tr x e x' ih hs
    exact ⟨ih.1.step hs, ih.2.step ih.1 hs⟩
  rw [hx.1]
  exact hall.2.1

/-- The store that makes a header recognised leaves the pair of the writer that made it. -/
theorem firstRecognised_run {e : Event ℕ UInt64 UInt16 WriterAnswer ℕ (List (List UInt64))}
    {st' : State ℕ UInt64 PageWriter UInt16 WriterAnswer ℕ (List (List UInt64))}
    (hrun : (headerSystem size).Run m₀ tr st) (hold : recognised (headerAt st.mem) = false)
    (hs : (headerSystem size).Step st e st') (hnew : recognised (headerAt st'.mem) = true) :
    ∃ minor off v, e = .store minor off v ∧
      pairAt st'.mem = PageABI.pair ⟨minor, size minor⟩ := by
  obtain ⟨x, hview, hx⟩ := hrun.view
  have hwf : (headerSystem size).WellFormed x := System.wellFormed_gone.path hview
  obtain ⟨x', hs', hx'⟩ := hx.step hs
  have hwf' := hwf.step hs'
  rw [hx.1] at hold
  rw [hx'.1] at hnew ⊢
  cases hs' with
  | @store m minor w m₁ past rest off v =>
    obtain ⟨hsplit, hmem⟩ := hwf
    obtain ⟨hsplit', hmem'⟩ := hwf'
    rw [hmem, applyStores_past ⟨_, hsplit⟩] at hold
    rw [hmem', applyStores_past ⟨_, hsplit'⟩] at hnew ⊢
    refine ⟨minor, off, v, rfl, pairAt_headerStage_of_unrecognised _ _ _ ?_ hnew⟩
    by_contra hrec
    rw [Bool.not_eq_false] at hrec
    exact absurd (recognised_headerStage _ _ _ hrec) (by rw [hold]; simp)
  | spawn | die | call | load | ret | start | read | finish =>
    exact absurd hnew (by rw [hold]; simp)

end Crashes

section Readers

/-- The (abiMinor, bodySize) pair of the header words a reader loaded. -/
def readPair (words : List UInt64) : ℕ × ℕ :=
  (uintIn (headerBytes words) (pageOffset .abiMinor) 2,
    uintIn (headerBytes words) (pageOffset .bodySize) 4)

/-- The one pair between the old and the new that the store order produces. -/
def middlePair (abi : PageABI) (m : PageWords) : ℕ × ℕ :=
  if rollsBack abi m then (abi.minor.toNat, bodySizeAt m) else (abiMinorAt m, abi.bodySize.toNat)

/-- A pair the page holds at some time during a `Resume`: the old, the middle or the new. -/
def HeldPair (abi : PageABI) (m : PageWords) (pair : ℕ × ℕ) : Prop :=
  pair = pairAt m ∨ pair = middlePair abi m ∨ pair = abi.pair

variable {abi : PageABI} {m : PageWords}

/-- What a read yields that loads abiMinor at stage `k` and bodySize at stage `k'`. -/
def sampledPair (abi : PageABI) (m : PageWords) (k k' : ℕ) : ℕ × ℕ :=
  (abiMinorAt (headerStage abi m k), bodySizeAt (headerStage abi m k'))

/-- One read: a pair the page held, or in a rollback the old minor with the new body. -/
theorem sampledPair_cases {k k' : ℕ} (h : k ≤ k') : HeldPair abi m (sampledPair abi m k k') ∨
    rollsBack abi m = true ∧ sampledPair abi m k k' = (abiMinorAt m, abi.bodySize.toNat) := by
  rw [sampledPair, abiMinorAt_headerStage, bodySizeAt_headerStage]
  cases hr : rollsBack abi m with
  | true =>
    obtain ⟨hminor, hsize⟩ := minorStore_first hr
    rw [hminor, hsize]
    simp only [HeldPair, middlePair, pairAt, PageABI.pair, hr, if_true, true_and]
    split_ifs <;> simp
  | false =>
    obtain ⟨hminor, hsize⟩ := sizeStore_first hr
    rw [hminor, hsize]
    simp only [HeldPair, middlePair, pairAt, PageABI.pair, hr, Bool.false_eq_true, if_false,
      false_and, or_false]
    split_ifs with h₆ h₅ h₅
    · simp
    · omega
    · simp
    · simp

/-- Two reads in a row that agree: the store of bodySize in between cannot have come
before that of abiMinor. -/
theorem heldPair_of_same {k₁ k₂ k₃ k₄ : ℕ} (h₁ : k₁ ≤ k₂) (h₂ : k₂ ≤ k₃)
    (hsame : sampledPair abi m k₁ k₂ = sampledPair abi m k₃ k₄) :
    HeldPair abi m (sampledPair abi m k₁ k₂) := by
  rcases sampledPair_cases h₁ with hheld | ⟨hr, htorn⟩
  · exact hheld
  · obtain ⟨hminor, hsize⟩ := minorStore_first hr
    rw [htorn] at hsame ⊢
    rw [sampledPair, abiMinorAt_headerStage, hminor, Prod.mk.injEq] at hsame
    rw [sampledPair, bodySizeAt_headerStage, hsize, Prod.mk.injEq] at htorn
    by_cases hk : 6 < k₂
    · rw [if_pos (by omega)] at hsame
      exact .inr (.inr (Prod.ext hsame.1 rfl))
    · rw [if_neg hk] at htorn
      exact .inl (Prod.ext rfl htorn.2.symm)

variable {size : UInt16 → UInt32} {m₀ : PageWords} {minor : UInt16} {i : ℕ}
  {st : State ℕ UInt64 PageWriter UInt16 WriterAnswer ℕ (List (List UInt64))}
  {tr p q : List (Event ℕ UInt64 UInt16 WriterAnswer ℕ (List (List UInt64)))}

/-- In a run with one `Resume` every load sees one of its stages. -/
theorem load_stage {off : ℕ} {v : UInt64}
    (hrun : (headerSystem size).Run m₀ (p ++ .read i off v :: q) st)
    (hone : callsOf (p ++ .read i off v :: q) = [minor]) :
    v = headerStage ⟨minor, size minor⟩ m₀ (storesOf p).length off := by
  obtain ⟨x, hview, -⟩ := hrun.view
  have hstores := System.storesOf_prefix hview hone
  rw [storesOf_append] at hstores
  rw [hrun.load_eq, applyStores_past ((List.prefix_append _ _).trans hstores)]

/-- The loads of one header read. -/
theorem block_loads {block : List (ℕ × UInt64)} (h : block.map Prod.fst = headerOffsets) :
    ∃ v₀ v₈ v₁₆ rest, block = (0, v₀) :: (8, v₈) :: (16, v₁₆) :: rest ∧
      readPair (block.map Prod.snd) =
        (v₈.toNat / 2 ^ 16 % 2 ^ 16, v₁₆.toNat % 2 ^ 32) := by
  rw [headerOffsets_eq] at h
  match block, h with
  | (_, v₀) :: (_, v₈) :: (_, v₁₆) :: rest, h =>
    simp only [List.map_cons, List.cons.injEq] at h
    obtain ⟨rfl, rfl, rfl, -⟩ := h
    refine ⟨v₀, v₈, v₁₆, rest, rfl, ?_⟩
    have hminor := uintIn_headerBytes (v₀ :: v₈ :: v₁₆ :: rest.map Prod.snd) 1 2 2 rfl (by omega)
    have hsize := uintIn_headerBytes (v₀ :: v₈ :: v₁₆ :: rest.map Prod.snd) 2 0 4 rfl (by omega)
    rw [pow_zero, Nat.div_one] at hsize
    rw [readPair, pageOffset_header.2.1, pageOffset_header.2.2.2]
    exact Prod.ext hminor hsize

/-- A header read in a run with one `Resume` loads abiMinor and later bodySize. -/
theorem block_sampled {block rs : List (ℕ × UInt64)} (hrun : (headerSystem size).Run m₀ (p ++ q) st)
    (hone : callsOf (p ++ q) = [minor]) (hreads : readsOf i q = block ++ rs)
    (hblock : block.map Prod.fst = headerOffsets) :
    ∃ k k' p' q', p ++ q = p' ++ q' ∧ readsOf i q' = rs ∧ (storesOf p).length ≤ k ∧ k ≤ k' ∧
      k' ≤ (storesOf p').length ∧
      readPair (block.map Prod.snd) = sampledPair ⟨minor, size minor⟩ m₀ k k' := by
  obtain ⟨v₀, v₈, v₁₆, rest, rfl, hpair⟩ := block_loads hblock
  have h₈ : readsOf i q = [(0, v₀)] ++ (8, v₈) :: ((16, v₁₆) :: rest ++ rs) := hreads
  obtain ⟨q₁, q₂, rfl, -, hq₂⟩ := readsOf_split h₈
  have h₁₆ : readsOf i q₂ = [] ++ (16, v₁₆) :: (rest ++ rs) := hq₂
  obtain ⟨q₃, q₄, rfl, -, hq₄⟩ := readsOf_split h₁₆
  obtain ⟨q₅, q₆, rfl, -, hq₆⟩ := List.filterMap_eq_append_iff.mp hq₄
  have hminor : v₈ = headerStage ⟨minor, size minor⟩ m₀ (storesOf (p ++ q₁)).length 8 := by
    rw [← List.append_assoc] at hrun hone
    exact load_stage hrun hone
  have hsize : v₁₆ = headerStage ⟨minor, size minor⟩ m₀
      (storesOf (p ++ (q₁ ++ .read i 8 v₈ :: q₃))).length 16 := by
    have hassoc : p ++ (q₁ ++ .read i 8 v₈ :: (q₃ ++ .read i 16 v₁₆ :: (q₅ ++ q₆))) =
        p ++ (q₁ ++ .read i 8 v₈ :: q₃) ++ .read i 16 v₁₆ :: (q₅ ++ q₆) := by simp
    rw [hassoc] at hrun hone
    exact load_stage hrun hone
  refine ⟨(storesOf (p ++ q₁)).length, (storesOf (p ++ (q₁ ++ .read i 8 v₈ :: q₃))).length,
    p ++ (q₁ ++ .read i 8 v₈ :: (q₃ ++ .read i 16 v₁₆ :: q₅)), q₆, by simp, hq₆,
    by simp [storesOf], by simp [storesOf], by simp [storesOf], ?_⟩
  rw [hpair, sampledPair, abiMinorAt_eq, bodySizeAt_eq, ← hminor, ← hsize]

/-- The blocks of loads of a row of header reads. -/
theorem reads_readHeaders {n : ℕ} {rs : List (ℕ × UInt64)} {hdrs : List (List UInt64)}
    (h : Reads (readHeaders n) rs hdrs) : ∃ blocks : List (List (ℕ × UInt64)),
      rs = blocks.flatten ∧ hdrs = blocks.map (List.map Prod.snd) ∧
      ∀ block ∈ blocks, block.map Prod.fst = headerOffsets := by
  induction n generalizing rs hdrs with
  | zero =>
    obtain ⟨rfl, rfl⟩ := Reads.of_pure h
    exact ⟨[], rfl, rfl, by simp⟩
  | succ n ih =>
    obtain ⟨block, words, rs', rfl, hwords, htail⟩ := Reads.of_bind h
    obtain ⟨rs₁, rest, rs₂, rfl, hrest, hpure⟩ := Reads.of_bind htail
    obtain ⟨rfl, rfl⟩ := Reads.of_pure hpure
    obtain ⟨blocks, rfl, rfl, hblocks⟩ := ih hrest
    obtain ⟨hfst, rfl⟩ := Reads.of_loadAll hwords
    refine ⟨block :: blocks, by simp, by simp, ?_⟩
    rintro b hb
    rcases List.mem_cons.mp hb with rfl | hb
    · exact hfst
    · exact hblocks b hb

/-- In the trace `tr` reader `i` reads the header several times in a row and returns the
header words `hdrs`. -/
def ReadsHeaders (i : ℕ) (hdrs : List (List UInt64))
    (tr : List (Event ℕ UInt64 UInt16 WriterAnswer ℕ (List (List UInt64)))) : Prop :=
  ∃ pre n mid post, tr = pre ++ .start i n :: mid ++ .finish i n hdrs :: post ∧ NoFinish i mid

/-- A header read at its place in the trace, and the reads that follow it. -/
theorem ReadsHeaders.sampled {hdrs before after : List (List UInt64)} {hdr : List UInt64}
    (hrun : (headerSystem size).Run m₀ tr st) (hone : callsOf tr = [minor])
    (hread : ReadsHeaders i hdrs tr) (hhdr : hdrs = before ++ hdr :: after) :
    ∃ k k' p q later, ∃ blocks : List (List (ℕ × UInt64)),
      tr = p ++ q ∧ k ≤ k' ∧ k' ≤ (storesOf p).length ∧
      readPair hdr = sampledPair ⟨minor, size minor⟩ m₀ k k' ∧
      readsOf i q = blocks.flatten ++ later ∧ after = blocks.map (List.map Prod.snd) ∧
      ∀ block ∈ blocks, block.map Prod.fst = headerOffsets := by
  obtain ⟨pre, n, mid, post, rfl, hno⟩ := hread
  obtain ⟨blocks, hmid, hblocks, hoffs⟩ := reads_readHeaders (hrun.reads hno).2
  rw [hhdr] at hblocks
  obtain ⟨bs, rest, rfl, rfl, hrest⟩ := List.append_eq_map_iff.mp hblocks
  obtain ⟨block, bs', rfl, rfl, rfl⟩ := List.map_eq_cons_iff.mp hrest
  have hsplit : readsOf i mid = bs.flatten ++ (block ++ bs'.flatten) := by simpa using hmid
  obtain ⟨mid₁, mid₂, rfl, -, hmid₂⟩ := List.filterMap_eq_append_iff.mp hsplit
  have hassoc : pre ++ .start i n :: (mid₁ ++ mid₂) ++ .finish i n hdrs :: post =
      (pre ++ .start i n :: mid₁) ++ (mid₂ ++ .finish i n hdrs :: post) := by simp
  rw [hassoc] at hrun hone ⊢
  have hreads : readsOf i (mid₂ ++ .finish i n hdrs :: post) =
      block ++ (bs'.flatten ++ readsOf i (.finish i n hdrs :: post)) := by
    rw [readsOf_append, readsOf, hmid₂, List.append_assoc]
  obtain ⟨k, k', p', q', htr, hq', -, hk, hk', hpair⟩ :=
    block_sampled hrun hone hreads (hoffs block (by simp))
  exact ⟨k, k', p', q', _, bs', htr, hk, hk', hpair, hq', rfl,
    fun b hb => hoffs b (by simp [hb])⟩

/-- One header read during one `Resume`. -/
theorem headerRead_single {hdrs : List (List UInt64)} {hdr : List UInt64}
    (hrun : (headerSystem size).Run m₀ tr st) (hone : callsOf tr = [minor])
    (hread : ReadsHeaders i hdrs tr) (hmem : hdr ∈ hdrs) :
    HeldPair ⟨minor, size minor⟩ m₀ (readPair hdr) ∨
      rollsBack ⟨minor, size minor⟩ m₀ = true ∧
        readPair hdr = (abiMinorAt m₀, (size minor).toNat) := by
  obtain ⟨before, after, hsplit⟩ := List.append_of_mem hmem
  obtain ⟨k, k', -, -, -, -, -, hk, -, hpair, -⟩ := hread.sampled hrun hone hsplit
  rw [hpair]
  exact sampledPair_cases hk

/-- Two header reads in a row that agree, during one `Resume`. -/
theorem headerRead_twice {hdrs before after : List (List UInt64)} {hdr hdr' : List UInt64}
    (hrun : (headerSystem size).Run m₀ tr st) (hone : callsOf tr = [minor])
    (hread : ReadsHeaders i hdrs tr) (hrow : hdrs = before ++ hdr :: hdr' :: after)
    (hsame : readPair hdr = readPair hdr') : HeldPair ⟨minor, size minor⟩ m₀ (readPair hdr) := by
  obtain ⟨k₁, k₂, p, q, later, blocks, rfl, hk₁, hk₂, hpair, hreads, hafter, hoffs⟩ :=
    hread.sampled hrun hone hrow
  obtain ⟨block, blocks, rfl, rfl, -⟩ := List.map_eq_cons_iff.mp hafter.symm
  rw [List.flatten_cons, List.append_assoc] at hreads
  obtain ⟨k₃, k₄, -, -, -, -, hk₃, -, -, hpair'⟩ :=
    block_sampled hrun hone hreads (hoffs block (by simp))
  rw [hpair, hpair'] at hsame
  rw [hpair]
  exact heldPair_of_same hk₁ (hk₂.trans hk₃) hsame

end Readers

/-- What holds of the header while writers of any minors resume over a page, for any
body sizes of the minors. -/
theorem resume_header_valid (size : UInt16 → UInt32) (m₀ : PageWords) :
    (size pageABI.minor = pageABI.bodySize →
      ∀ w, (headerSystem size).call pageABI.minor w = w.resume) ∧
    -- over a valid header, after every store of every `Resume`
    (ValidHeader size m₀ → ∀ tr st, (headerSystem size).Run m₀ tr st → ValidHeader size st.mem) ∧
    -- the first header that is recognised
    (∀ tr st e st', (headerSystem size).Run m₀ tr st → recognised (headerAt st.mem) = false →
      (headerSystem size).Step st e st' → recognised (headerAt st'.mem) = true →
      ∃ minor off v, e = .store minor off v ∧
        pairAt st'.mem = PageABI.pair ⟨minor, size minor⟩) ∧
    -- readers during one `Resume`
    (recognised (headerAt m₀) = true → ∀ tr st minor i hdrs, (headerSystem size).Run m₀ tr st →
      callsOf tr = [minor] → ReadsHeaders i hdrs tr →
      (∀ hdr ∈ hdrs, HeldPair ⟨minor, size minor⟩ m₀ (readPair hdr) ∨
        (size minor).toNat < bodySizeAt m₀ ∧
          readPair hdr = (abiMinorAt m₀, (size minor).toNat)) ∧
      ∀ before hdr hdr' after, hdrs = before ++ hdr :: hdr' :: after →
        readPair hdr = readPair hdr' → HeldPair ⟨minor, size minor⟩ m₀ (readPair hdr)) := by
  refine ⟨fun h => headerSystem_call h, fun h tr st hrun => validHeader_run h hrun,
    fun tr st e st' hrun hold hs hnew => firstRecognised_run hrun hold hs hnew, ?_⟩
  intro hheader tr st minor i hdrs hrun hone hread
  refine ⟨fun hdr hmem => ?_, fun before hdr hdr' after hrow hsame =>
    headerRead_twice hrun hone hread hrow hsame⟩
  rcases headerRead_single hrun hone hread hmem with hheld | ⟨hr, htorn⟩
  · exact .inl hheld
  · exact .inr ⟨(rollsBack_iff _ hheader).mp hr, htorn⟩

/-- A reader that is not interrupted returns the header of the memory each time. -/
theorem readHeaders_alone (n : ℕ) (m : PageWords) : (readHeaders n).stores m = [] ∧
    (readHeaders n).result m = List.replicate n (headerOffsets.map m) := by
  induction n with
  | zero => exact ⟨rfl, rfl⟩
  | succ n ih =>
    refine ⟨by simp [readHeaders, ih.1], by simp [readHeaders, ih.2, List.replicate_succ]⟩

theorem run_readHeaders {size : UInt16 → UInt32} {m : PageWords}
    {tr : List (Event ℕ UInt64 UInt16 WriterAnswer ℕ (List (List UInt64)))}
    {st : State ℕ UInt64 PageWriter UInt16 WriterAnswer ℕ (List (List UInt64))}
    (hrun : (headerSystem size).Run m tr st) (i n : ℕ) (hfree : st.reader i = none) :
    ∃ tr', (headerSystem size).Run m (tr ++ tr') (st.reading i none) ∧ callsOf tr' = [] ∧
      ReadsHeaders i (List.replicate n (headerOffsets.map st.mem)) (tr ++ tr') := by
  obtain ⟨hstores, hresult⟩ := readHeaders_alone n st.mem
  have hread := System.Run.read hrun i n hfree hstores
  refine ⟨_, hread, ?_, tr, n, (readHeaders n).loadEvents i st.mem, [], ?_,
    Program.noFinish_loadEvents i i _ _⟩
  · rw [← List.singleton_append, callsOf_append, callsOf_append, Program.callsOf_loadEvents]
    rfl
  · rw [← hresult, List.append_assoc, List.cons_append]
    rfl

/-- A writer resumes and no reader reads meanwhile. -/
theorem run_resume (size : UInt16 → UInt32) (m : PageWords) (minor : UInt16) :
    ∃ tr st, (headerSystem size).Run m tr st ∧ callsOf tr = [minor] ∧
      (∀ i, st.reader i = none) ∧ recognised (headerAt st.mem) = true := by
  have hstart : (headerSystem size).Run m [] (.start m) := .nil
  have hspawn := hstart.snoc ((headerSystem size).step_spawn rfl)
  refine ⟨_, _, System.Run.call hspawn rfl minor, ?_, fun _ => rfl, ?_⟩
  · rw [callsOf_append]
    exact congrArg (minor :: ·) (Program.callsOf_callEvents minor _ m)
  · have hfinal : ((headerSystem size).call minor (headerSystem size).fresh).final m =
        applyStores m ((headerOrder (rollsBack ⟨minor, size minor⟩ m)).map
          (fun off => (off, PageABI.headerWord ⟨minor, size minor⟩ off))) :=
      congrArg (applyStores m) (stores_resumeWith ..)
    change recognised (headerAt (((headerSystem size).call minor _).final m)) = true
    rw [hfinal]
    exact recognised_applyStores _

/-- A page that an older minor with a body of 8 bytes left, and body sizes for it. -/
def minorZeroPage : PageWords := PageABI.headerWord ⟨0, 8⟩

def sizeByMinor (minor : UInt16) : UInt32 := if minor = 0 then 8 else pageABI.bodySize

theorem minorZeroPage_valid : ValidHeader sizeByMinor minorZeroPage := by
  refine ⟨recognised_of_words ⟨0, 8⟩ rfl rfl, ?_⟩
  rw [abiMinorAt_eq, bodySizeAt_eq]
  decide

/-- The upgrade of that page to this release, with a reader after it, and the first
`Resume` of a zeroed page. -/
theorem resume_header_valid_upgrade :
    (∃ tr st hdr, (headerSystem sizeByMinor).Run minorZeroPage tr st ∧
      callsOf tr = [pageABI.minor] ∧ ReadsHeaders 0 [hdr, hdr] tr ∧
      ValidHeader sizeByMinor st.mem ∧ HeldPair pageABI minorZeroPage (readPair hdr)) ∧
    ∃ tr st e st' minor off v, (headerSystem sizeByMinor).Run (fun _ => 0) tr st ∧
      (headerSystem sizeByMinor).Step st e st' ∧ e = .store minor off v ∧
      pairAt st'.mem = PageABI.pair ⟨minor, sizeByMinor minor⟩ := by
  constructor
  · obtain ⟨-, hvalid, -, hreaders⟩ := resume_header_valid sizeByMinor minorZeroPage
    obtain ⟨tr, st, hrun, hcalls, hfree, -⟩ := run_resume sizeByMinor minorZeroPage pageABI.minor
    obtain ⟨tr', hrun', hcalls', hread⟩ := run_readHeaders hrun 0 2 (hfree 0)
    have hone : callsOf (tr ++ tr') = [pageABI.minor] := by
      rw [callsOf_append, hcalls, hcalls']
      rfl
    refine ⟨_, _, _, hrun', hone, hread, hvalid minorZeroPage_valid _ _ hrun', ?_⟩
    exact (hreaders minorZeroPage_valid.recognised _ _ _ _ _ hrun' hone hread).2 [] _ _ [] rfl rfl
  · obtain ⟨-, -, hfirst, -⟩ := resume_header_valid sizeByMinor (fun _ => 0)
    obtain ⟨tr, st, hrun, -, -, hnew⟩ := run_resume sizeByMinor (fun _ => 0) pageABI.minor
    have hold : ¬recognised (headerAt fun _ => 0) = true := by
      rw [recognised_iff]
      decide
    obtain ⟨pre, e, t, t', hpre, hstep, ht, ht'⟩ :=
      Path.exists_change (P := fun st => recognised (headerAt st.mem) = true) hrun hold hnew
    obtain ⟨minor, off, v, he, hpair⟩ := hfirst _ _ _ _ hpre (Bool.not_eq_true _ ▸ ht) hstep ht'
    exact ⟨pre, t, e, t', minor, off, v, hpre, hstep, he, hpair⟩

end K3smApis.Budget
