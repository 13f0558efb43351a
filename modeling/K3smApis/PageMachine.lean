import K3smApis.PageHeader

/-!
# The page under one writer and any number of readers

The system of writers and readers of one page, what its traces say about
publications, and the one case analysis of a publication's stores that every
invariant below uses.
-/
namespace K3smApis.Budget
open ByteImage AtomicProgram

inductive PageCall where
  | resume
  | publish (s : PageSnapshot)
  deriving DecidableEq, Repr

/-- The reads of a reader: the seqlock protocol, the same after a header check, and a
load of the notify word. -/
inductive PageRead where
  | seqlock | checked | notifyEpoch
  deriving DecidableEq, Repr

inductive PageAnswer where
  | body (words : SeqlockAnswer)
  | epoch (value : UInt64)
  deriving DecidableEq, Repr

def pageSystem :
    System ℕ UInt64 PageWriter PageCall WriterAnswer PageRead PageAnswer where
  fresh := {}
  call
    | .resume, w => w.resume
    | .publish s, w => w.publish s
  read
    | .seqlock => do return .body (← seqlockRead)
    | .checked => do return .body (← checkedRead)
    | .notifyEpoch => do return .epoch (← Program.get pageNotifyEpochOffset)

abbrev PageEvent := Event ℕ UInt64 PageCall WriterAnswer PageRead PageAnswer
abbrev PageTrace := List PageEvent
abbrev PageState := State ℕ UInt64 PageWriter PageCall WriterAnswer PageRead PageAnswer

/-- A memory of the page and the writer's view of it. -/
abbrev PagePoint := PageWords × View ℕ UInt64 PageWriter PageCall

/-- The odd seq store that opens a publication. -/
def opens : PageEvent → Bool
  | .store (.publish _) off v => off = pageSeqOffset ∧ v % 2 = 1
  | _ => false

/-- The publication whose even seq store this is. -/
def committed : PageEvent → Option PageSnapshot
  | .store (.publish s) off v => if off = pageSeqOffset ∧ v % 2 = 0 then some s else none
  | _ => none

/-- A store of the notify word. -/
def bumps : PageEvent → Bool
  | .store (.publish _) off _ => off = pageNotifyEpochOffset
  | _ => false

/-- How many publications a trace opens, whether or not their writer lives to
complete them. -/
def opened (tr : PageTrace) : ℕ := tr.countP opens

/-- The publications a trace completes, in order. -/
def commits (tr : PageTrace) : List PageSnapshot := tr.filterMap committed

/-- How often a trace bumps the notify word. -/
def bumped (tr : PageTrace) : ℕ := tr.countP bumps

/-- The body words of a memory. -/
def bodyAt (m : PageWords) : List UInt64 := bodyOffsets.map m

/-- The body words of `EncodePage`. -/
def encodedBody (s : PageSnapshot) : List UInt64 :=
  match encodePage s with
  | .ok page => bodyOffsets.map (wordAt page)
  | .error _ => []

/-- The body of the last publication a trace completes, or the initial one. -/
def lastBody (m₀ : PageWords) (tr : PageTrace) : List UInt64 :=
  match (commits tr).getLast? with
  | some s => encodedBody s
  | none => bodyAt m₀

@[simp] theorem opened_append (tr tr' : PageTrace) :
    opened (tr ++ tr') = opened tr + opened tr' := List.countP_append

@[simp] theorem bumped_append (tr tr' : PageTrace) :
    bumped (tr ++ tr') = bumped tr + bumped tr' := List.countP_append

@[simp] theorem commits_append (tr tr' : PageTrace) :
    commits (tr ++ tr') = commits tr ++ commits tr' := List.filterMap_append

theorem mem_bodyOffsets {off : ℕ} (h : off ∈ bodyOffsets) : pageHeaderSize ≤ off := by
  obtain ⟨k, -, rfl⟩ := List.mem_map.mp h
  exact Nat.le_add_right _ _

theorem bodyOffsets_nodup : bodyOffsets.Nodup := by
  refine List.nodup_range.map ?_
  intro a b h
  dsimp only at h
  omega

theorem bodyAt_congr {m m' : PageWords} (h : ∀ off, pageHeaderSize ≤ off → m' off = m off) :
    bodyAt m' = bodyAt m :=
  List.map_congr_left fun off hoff => h off (mem_bodyOffsets hoff)

theorem mem_headerOffsets {off : ℕ} (h : off ∈ headerOffsets) : off < pageSeqOffset := by
  have hall : ∀ off ∈ headerOffsets, off < pageSeqOffset := by decide
  exact hall off h

namespace PageWriter

theorem mem_bodyStores {scratch : Page} {x : ℕ × UInt64} (h : x ∈ bodyStores scratch) :
    pageHeaderSize ≤ x.1 := by
  obtain ⟨off, hoff, rfl⟩ := List.mem_map.mp h
  exact mem_bodyOffsets hoff

theorem bodyStores_fst (scratch : Page) : (bodyStores scratch).map Prod.fst = bodyOffsets := by
  simp [bodyStores, Function.comp_def]

/-- Storing the body words of a page makes them the body. -/
theorem bodyAt_applyStores (m : PageWords) (scratch : Page) :
    bodyAt (applyStores m (bodyStores scratch)) = bodyOffsets.map (wordAt scratch) := by
  apply List.map_congr_left
  intro off hoff
  have hnd : ((bodyStores scratch).map Prod.fst).Nodup := by
    rw [bodyStores_fst]
    exact bodyOffsets_nodup
  exact applyStores_of_mem m (s := (off, wordAt scratch off)) hnd (List.mem_map_of_mem hoff)

/-- The stores of an accepted publication, each with the stores before it. -/
inductive PublishStore (w : PageWriter) (s : PageSnapshot) (scratch : Page) :
    List (ℕ × UInt64) → ℕ → UInt64 → Prop where
  | odd : PublishStore w s scratch [] pageSeqOffset (w.seq + 1)
  | body {past : List (ℕ × UInt64)} {off : ℕ} {v : UInt64} :
      past <+: bodyStores scratch → (off, v) ∈ bodyStores scratch →
      PublishStore w s scratch ((pageSeqOffset, w.seq + 1) :: past) off v
  | even : PublishStore w s scratch ((pageSeqOffset, w.seq + 1) :: bodyStores scratch)
      pageSeqOffset (w.seq + 2)
  | epoch : w.due s = true →
      PublishStore w s scratch
        ((pageSeqOffset, w.seq + 1) :: (bodyStores scratch ++ [(pageSeqOffset, w.seq + 2)]))
        pageNotifyEpochOffset (w.epoch + 1)

/-- Every store of a `Publish` is one of an accepted publication by a resumed writer. -/
theorem publishStore_of_split {w : PageWriter} {s : PageSnapshot} {m : PageWords}
    {past rest : List (ℕ × UInt64)} {off : ℕ} {v : UInt64}
    (h : past ++ (off, v) :: rest = (w.publish s).stores m) :
    w.resumed = true ∧ ∃ scratch, encodePage s = .ok scratch ∧
      PublishStore w s scratch past off v := by
  rcases publish_cases w m s with ⟨hnone, -⟩ | ⟨hresumed, scratch, hs⟩
  · rw [hnone] at h
    simp at h
  · refine ⟨hresumed, scratch, hs, ?_⟩
    rw [stores_publish w m hresumed hs] at h
    cases past with
    | nil =>
      obtain ⟨heq, -⟩ := List.cons.inj h
      obtain ⟨rfl, rfl⟩ := Prod.mk.inj heq
      exact .odd
    | cons x past =>
      obtain ⟨rfl, htail⟩ := List.cons.inj h
      rcases List.append_eq_append_iff.mp htail with ⟨mid, hbody, hrest⟩ | ⟨mid, hbody, hrest⟩
      · cases mid with
        | nil =>
          -- every body word is stored
          obtain ⟨heq, -⟩ := List.cons.inj hrest
          obtain ⟨rfl, rfl⟩ := Prod.mk.inj heq
          rw [List.append_nil] at hbody
          rw [← hbody]
          exact .even
        | cons y mid =>
          obtain ⟨rfl, -⟩ := List.cons.inj hrest
          refine .body ⟨_, hbody.symm⟩ ?_
          rw [hbody]
          simp
      · cases mid with
        | nil =>
          obtain ⟨heq, -⟩ := List.cons.inj hrest
          obtain ⟨rfl, rfl⟩ := Prod.mk.inj heq
          rw [hbody, List.append_nil]
          exact .even
        | cons y mid =>
          obtain ⟨rfl, hlast⟩ := List.cons.inj hrest
          cases hdue : w.due s with
          | false => simp [hdue] at hlast
          | true =>
            -- the notify word is the one store left
            rw [hdue, if_pos rfl] at hlast
            obtain ⟨rfl, hlast⟩ : mid = [] ∧
                (off, v) :: rest = [(pageNotifyEpochOffset, w.epoch + 1)] := by
              cases mid with
              | nil => exact ⟨rfl, hlast.symm⟩
              | cons z mid => simp at hlast
            obtain ⟨heq, -⟩ := List.cons.inj hlast
            obtain ⟨rfl, rfl⟩ := Prod.mk.inj heq
            rw [hbody]
            exact .epoch hdue

section Before

variable {w : PageWriter} {s : PageSnapshot} {scratch : Page} {past : List (ℕ × UInt64)}
  (m : PageWords)

/-- While the body words are stored, seq is the odd value. -/
theorem seq_of_past (h : past <+: bodyStores scratch) :
    applyStores m ((pageSeqOffset, w.seq + 1) :: past) pageSeqOffset = w.seq + 1 := by
  rw [applyStores_cons, applyStores_of_not_mem]
  · exact Function.update_self _ _ _
  · intro x hx heq
    have hle := mem_bodyStores (h.subset hx)
    rw [heq] at hle
    exact absurd hle (by decide)

theorem body_of_past :
    bodyAt (applyStores m ((pageSeqOffset, w.seq + 1) :: bodyStores scratch)) =
      bodyOffsets.map (wordAt scratch) := by
  rw [applyStores_cons, bodyAt_applyStores]

end Before

/-- Every store of a `Resume` is a header word of this minor. -/
theorem resumeStore_of_split {w : PageWriter} {m : PageWords} {past rest : List (ℕ × UInt64)}
    {off : ℕ} {v : UInt64} (h : past ++ (off, v) :: rest = w.resume.stores m) :
    off ∈ headerOffsets ∧ v = pageABI.headerWord off := by
  rw [resume_eq, resumeAs, stores_resumeWith] at h
  have hmem : (off, v) ∈ past ++ (off, v) :: rest := by simp
  rw [h] at hmem
  obtain ⟨off', hoff, heq⟩ := List.mem_map.mp hmem
  obtain ⟨rfl, rfl⟩ := Prod.mk.inj heq
  exact ⟨mem_headerOrder.mp hoff, rfl⟩

theorem recognised_resume (w : PageWriter) (m : PageWords) :
    recognised (headerAt (applyStores m (w.resume.stores m))) = true := by
  rw [resume_eq, resumeAs, stores_resumeWith]
  exact recognised_applyStores _

theorem result_resume (w : PageWriter) (m : PageWords) : w.resume.result m =
    ({ w with seq := resumedSeq m, epoch := resumedEpoch m, resumed := true, hasLast := false },
      .ok ()) := by
  rw [resume_eq, resumeAs, result_resumeWith]

end PageWriter

end K3smApis.Budget
