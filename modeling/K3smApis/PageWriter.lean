import K3smApis.PageEncoding
import K3smApis.SingleWriter

/-!
# The page writer and its readers

`resume` and `publish` as programs over the page's 8-byte words, one atomic load or
store at a time in the order the source issues them, and the programs of a reader.
A location is a byte offset. `NewPageWriter` has checked the mapping's size and
alignment and the host's byte order before any of this runs.
-/
namespace K3smApis.Budget
open ByteImage AtomicProgram

/-- The words of a page, by their byte offset. -/
abbrev PageWords := Memory ℕ UInt64

/-- `pageNotifyKey`: what `PageNotifyDue` compares. -/
structure PageNotifyKey where
  level : Wire Level := default
  admits : Bool := false
  generation : Int64 := 0
  ladder : Fin maxPageSignals → Fin 10 → Int64 := fun _ _ => 0
  deriving DecidableEq, Inhabited

/-- A slot's rungs and releases, ten values. -/
def BudgetSignal.ladder (g : BudgetSignal) : List (Option Int64) := g.rungs ++ g.releases

def notifyKeyOf (s : PageSnapshot) : PageNotifyKey where
  level := s.level
  admits := s.admits
  generation := s.generation
  ladder i j := ((signalAt s i).bind (fun g => (g.ladder[j.val]?).join)).getD pageAbsent

/-- `PageNotifyDue`: a nil `prev` is always due. -/
def pageNotifyDue (prev : Option PageSnapshot) (next : PageSnapshot) : Bool :=
  match prev with
  | none => true
  | some prev => notifyKeyOf prev ≠ notifyKeyOf next

/-- `PageWriter` without the mapping it writes to. -/
structure PageWriter where
  seq : UInt64 := 0
  epoch : UInt64 := 0
  resumed : Bool := false
  last : PageNotifyKey := {}
  hasLast : Bool := false
  deriving Inhabited

/-- `for off := from; off < to; off += 8`. -/
def wordOffsets (start stop : ℕ) : List ℕ :=
  (List.range ((stop - start + 7) / 8)).map (fun k => start + 8 * k)

/-- The offsets of the header line. -/
def headerOffsets : List ℕ := wordOffsets 0 pageSeqOffset

/-- The offsets of the body words, from `PageHeaderSize` to the body end. -/
def bodyOffsets : List ℕ := wordOffsets pageHeaderSize pageBodyEnd

/-- The header line as bytes, from its words. -/
def headerBytes (words : List UInt64) : List UInt8 := words.flatMap (fun w => leBytes 8 w.toNat)

/-- A little-endian unsigned integer of `width` bytes at `off`. -/
def uintIn (hdr : List UInt8) (off width : ℕ) : ℕ := leNat ((hdr.drop off).take width)

/-- Whether a header is this ABI major's: its magic, abiMajor and headerSize. -/
def recognised (hdr : List UInt8) : Bool :=
  hdr.take pageMagic.length = pageMagic ∧
    uintIn hdr (pageOffset .abiMajor) 2 = pageABIMajor ∧
    uintIn hdr (pageOffset .headerSize) 4 = pageHeaderSize

/-- Whether the header announces a larger body than `bodySize`. -/
def shrinksTo (bodySize : ℕ) (hdr : List UInt8) : Bool :=
  bodySize < uintIn hdr (pageOffset .bodySize) 4

/-- An odd seq, left by a writer that died mid-write, counts as its even successor. -/
def evened (seq : UInt64) : UInt64 := if seq % 2 = 1 then seq + 1 else seq

/-- `off &^ 7`: the word a field is in. -/
def wordOf (off : ℕ) : ℕ := off / 8 * 8

/-- The order of `Resume`'s header stores: the abiMinor and bodySize words last but
for the magic, the one that keeps the pair valid first. -/
def headerOrder (shrinks : Bool) : List ℕ :=
  let minorWord := wordOf (pageOffset .abiMinor)
  let sizeWord := wordOf (pageOffset .bodySize)
  (headerOffsets.reverse.filter (fun off => 0 < off ∧ off ≠ minorWord ∧ off ≠ sizeWord)) ++
    (if shrinks then [minorWord, sizeWord] else [sizeWord, minorWord]) ++ [0]

/-- The snapshot `encodeHeader` encodes for its header line. -/
def headerSnapshot : PageSnapshot where
  nodeName := lit "-"
  writerPeriodSeconds := 1
  platform := word .linux
  level := word .ok
  linux := some {}
  observedAt := .ofUnixLocal 1

/-- `encodeHeader`: a page with the header line of this minor. -/
def encodeHeader : Except PageError Page := encodePage headerSnapshot

/-- What a call of the writer returns to its caller. -/
abbrev WriterAnswer := Except PageError Unit

abbrev WriterProgram := Program ℕ UInt64 (PageWriter × WriterAnswer)

namespace PageWriter

/-- `Resume` with the header line `fresh` of the resuming minor and its body size. -/
def resumeWith (fresh : Except PageError (ℕ → UInt64)) (bodySize : ℕ) (w : PageWriter) :
    WriterProgram := do
  let words ← Program.loadAll headerOffsets
  let hdr := headerBytes words
  let (w, shrinks) ←
    if recognised hdr then do
      let seq ← Program.get pageSeqOffset
      let epoch ← Program.get pageNotifyEpochOffset
      pure ({ w with seq := evened seq, epoch }, shrinksTo bodySize hdr)
    else pure ({ w with seq := 0, epoch := 0 }, false)
  match fresh with
  | .error e => pure (w, .error e)
  | .ok fresh => do
    Program.storeAll ((headerOrder shrinks).map (fun off => (off, fresh off)))
    pure ({ w with resumed := true, hasLast := false }, .ok ())

/-- `Resume`: take over the page. -/
def resume (w : PageWriter) : WriterProgram :=
  resumeWith (encodeHeader.map wordAt) pageBodySize w

/-- The body words of an encoded page, as `Publish` stores them. -/
def bodyStores (scratch : Page) : List (ℕ × UInt64) :=
  bodyOffsets.map (fun off => (off, wordAt scratch off))

/-- Whether `Publish` bumps `notifyEpoch`. -/
def due (w : PageWriter) (s : PageSnapshot) : Bool := !w.hasLast || notifyKeyOf s ≠ w.last

/-- `Publish`: an invalid snapshot is refused before any store. -/
def publish (w : PageWriter) (s : PageSnapshot) : WriterProgram :=
  if w.resumed = false then pure (w, .error ⟨[.pageWriterNotResumed], []⟩)
  else match encodePage s with
    | .error e => pure (w, .error e)
    | .ok scratch => do
      Program.put pageSeqOffset (w.seq + 1)
      Program.storeAll (bodyStores scratch)
      let seq := w.seq + 2
      Program.put pageSeqOffset seq
      let epoch ←
        if w.due s then do
          Program.put pageNotifyEpochOffset (w.epoch + 1)
          pure (w.epoch + 1)
        else pure w.epoch
      pure ({ w with seq, epoch, last := notifyKeyOf s, hasLast := true }, .ok ())

end PageWriter

/-- What a read returns: the body words, or that it has to be tried again. -/
abbrev SeqlockAnswer := Option (List UInt64)

/-- The reader protocol: load seq, retry if it is odd, load every body word, and
accept only if seq has not moved. -/
def seqlockRead : Program ℕ UInt64 SeqlockAnswer := do
  let seq ← Program.get pageSeqOffset
  if seq % 2 = 1 then pure none
  else do
    let body ← Program.loadAll bodyOffsets
    let seq' ← Program.get pageSeqOffset
    pure (if seq' = seq then some body else none)

/-- A reader that checks the header first and does not check it again. -/
def checkedRead : Program ℕ UInt64 SeqlockAnswer := do
  let words ← Program.loadAll headerOffsets
  if recognised (headerBytes words) then seqlockRead else pure none

/-- The header line a memory holds. -/
def headerAt (m : PageWords) : List UInt8 := headerBytes (headerOffsets.map m)

theorem headerBytes_map (m : PageWords) : headerBytes (headerOffsets.map m) = headerAt m := rfl

/-- The seq a resuming writer continues from. -/
def resumedSeq (m : PageWords) : UInt64 :=
  if recognised (headerAt m) then evened (m pageSeqOffset) else 0

/-- The notifyEpoch a resuming writer continues from. -/
def resumedEpoch (m : PageWords) : UInt64 :=
  if recognised (headerAt m) then m pageNotifyEpochOffset else 0

namespace PageWriter

variable (w : PageWriter) (m : PageWords)

theorem stores_resumeWith (fresh : ℕ → UInt64) (bodySize : ℕ) :
    (resumeWith (.ok fresh) bodySize w).stores m =
      (headerOrder (recognised (headerAt m) && shrinksTo bodySize (headerAt m))).map
        (fun off => (off, fresh off)) := by
  cases h : recognised (headerAt m) <;> simp [resumeWith, headerBytes_map, h]

theorem result_resumeWith (fresh : ℕ → UInt64) (bodySize : ℕ) :
    (resumeWith (.ok fresh) bodySize w).result m =
      ({ w with seq := resumedSeq m, epoch := resumedEpoch m, resumed := true, hasLast := false },
        .ok ()) := by
  cases h : recognised (headerAt m) <;>
    simp [resumeWith, headerBytes_map, resumedSeq, resumedEpoch, h]

/-- The stores of an accepted publication. -/
theorem stores_publish {s : PageSnapshot} {scratch : Page} (hw : w.resumed = true)
    (hs : encodePage s = .ok scratch) :
    (w.publish s).stores m =
      (pageSeqOffset, w.seq + 1) :: (bodyStores scratch ++ (pageSeqOffset, w.seq + 2) ::
        if w.due s then [(pageNotifyEpochOffset, w.epoch + 1)] else []) := by
  cases hd : w.due s <;> simp [publish, hw, hs, hd]

theorem result_publish {s : PageSnapshot} {scratch : Page} (hw : w.resumed = true)
    (hs : encodePage s = .ok scratch) :
    (w.publish s).result m =
      ({ w with
          seq := w.seq + 2
          epoch := if w.due s then w.epoch + 1 else w.epoch
          last := notifyKeyOf s
          hasLast := true }, .ok ()) := by
  cases hd : w.due s <;> simp [publish, hw, hs, hd]

/-- A refused publication stores nothing and leaves the writer as it was. -/
theorem publish_refused {s : PageSnapshot}
    (h : w.resumed = false ∨ ∃ e, encodePage s = .error e) :
    (w.publish s).stores m = [] ∧ ∃ e, (w.publish s).result m = (w, .error e) := by
  rcases h with h | ⟨e, h⟩
  · simp [publish, h]
  · cases hr : w.resumed <;> simp [publish, hr, h]

/-- Whether a publication is refused or accepted. -/
theorem publish_cases (s : PageSnapshot) :
    ((w.publish s).stores m = [] ∧ ∃ e, (w.publish s).result m = (w, .error e)) ∨
      (w.resumed = true ∧ ∃ scratch, encodePage s = .ok scratch) := by
  cases hr : w.resumed with
  | false => exact .inl (publish_refused w m (.inl hr))
  | true =>
    cases hs : encodePage s with
    | error e => exact .inl (publish_refused w m (.inr ⟨e, hs⟩))
    | ok scratch => exact .inr ⟨rfl, scratch, rfl⟩

end PageWriter

end K3smApis.Budget
