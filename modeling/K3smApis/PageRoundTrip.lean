import K3smApis.PageEncoding

/-!
# The page round trip

`PageSnapshot.normalise` is what the page can say about a snapshot. Reading an
encoded page gives the normal form, and the normal form encodes to the same page,
so two snapshots share a page exactly when they share a normal form.
-/
namespace K3smApis.Budget
open ByteImage

/-- A vocabulary value without its "unknown" word. -/
def known {V : Type} (v unknown : Wire V) : Wire V := if v = unknown then default else v

namespace PSIResource

def normalise (r : PSIResource) : PSIResource where
  some_ := r.some_.bind nonZero
  full := r.full.bind nonZero

theorem normalise_default : normalise default = default := rfl

end PSIResource

namespace LinuxPSI

def normalise (p : LinuxPSI) : LinuxPSI where
  cpu := p.cpu.bind (fun r => nonZero r.normalise)
  memory := p.memory.bind (fun r => nonZero r.normalise)
  io := p.io.bind (fun r => nonZero r.normalise)

theorem normalise_default : normalise default = default := rfl

end LinuxPSI

namespace LinuxSignals

def normalise (l : LinuxSignals) : LinuxSignals where
  psi := l.psi.bind (fun p => nonZero p.normalise)
  memoryEvents := l.memoryEvents.bind nonZero

theorem normalise_default : normalise default = default := rfl

end LinuxSignals

namespace DarwinSignals

def normalise (d : DarwinSignals) : DarwinSignals :=
  { d with compressor := d.compressor.bind nonZero }

end DarwinSignals

namespace BudgetSignal

def normalise (g : BudgetSignal) : BudgetSignal :=
  { g with
    trend := known g.trend (word .unknown)
    limitingResource := known g.limitingResource (word .unknown) }

end BudgetSignal

namespace PageSnapshot

/-- Times are whole UTC seconds, "unknown" is empty, a block without a present leaf
is nil, and so is a slice without an element. The linux block of a linux page is
there even when it is empty. -/
def normalise (s : PageSnapshot) : PageSnapshot :=
  { s with
    observedAt := s.observedAt.wholeSeconds
    darwin := s.darwin.map DarwinSignals.normalise
    linux :=
      if s.platform = word .linux then s.linux.map LinuxSignals.normalise
      else s.linux.bind (fun l => nonZero l.normalise)
    signals := appended (s.signals.list.map BudgetSignal.normalise)
    evictDeadline := s.evictDeadline.map Time.wholeSeconds
    killMode := { s.killMode with reason := known s.killMode.reason (word .unknown) }
    counters := appended s.counters.list }

/-- The times a page can carry apart from every other: cut to whole seconds neither
is the zero time, and the deadline is not the instant of the absent sentinel. -/
structure TimesCarried (s : PageSnapshot) : Prop where
  observedAt : s.observedAt.wholeSeconds.isZero = false
  evictDeadline : ∀ t ∈ s.evictDeadline, t.wholeSeconds.isZero = false ∧ t.unix ≠ pageAbsent

end PageSnapshot

section OptionalBlocks

variable {α β : Type} [Inhabited α] [DecidableEq α]

@[simp] theorem nonZero_default : nonZero (default : α) = none := by simp [nonZero]

@[simp] theorem nonZero_getD (a : α) : (nonZero a).getD default = a := by
  unfold nonZero
  split_ifs with h <;> simp [h]

/-- A block read from its leaves: a nil block has the leaves of the zero block. -/
theorem bind_eq_getD {γ : Type} [Inhabited γ] (get : γ → Option β) (h : get default = none)
    (o : Option γ) : o.bind get = get (o.getD default) := by
  cases o <;> simp [h]

theorem bind_nonZero (o : Option α) : o.bind nonZero = nonZero (o.getD default) := by
  cases o <;> simp

theorem bind_nonZero_map {γ : Type} [Inhabited γ] {f : γ → α} (h : f default = default)
    (o : Option γ) : o.bind (fun a => nonZero (f a)) = nonZero (f (o.getD default)) := by
  cases o <;> simp [h]

end OptionalBlocks

/-- The leaf of a PSI line of a linux block, through the nil blocks on the way. -/
def LinuxSignals.psiLeaf (l : LinuxSignals) (r : PSIResourceName) (n : PSILineName)
    (v : PSIValue) : Option Int64 :=
  v.get ((n.get ((r.get (l.psi.getD default)).getD default)).getD default)

theorem psi_leaf (o : Option LinuxSignals) (r : PSIResourceName) (n : PSILineName)
    (v : PSIValue) : (((o.bind LinuxSignals.psi).bind r.get).bind n.get).bind v.get =
      (o.getD default).psiLeaf r n v := by
  rw [bind_eq_getD v.get (by cases v <;> rfl),
    bind_eq_getD n.get (by cases n <;> rfl),
    bind_eq_getD r.get (by cases r <;> rfl), bind_eq_getD LinuxSignals.psi rfl]
  rfl

theorem memoryEvent_leaf (o : Option LinuxSignals) (e : MemoryEvent) :
    (o.bind LinuxSignals.memoryEvents).bind e.get =
      e.get ((o.getD default).memoryEvents.getD default) := by
  rw [bind_eq_getD e.get (by cases e <;> rfl),
    bind_eq_getD LinuxSignals.memoryEvents rfl]

theorem darwin_leaf (o : Option DarwinSignals) (d : DarwinField) :
    o.bind d.get = d.get (o.getD default) :=
  bind_eq_getD _ (by cases d <;> rfl) o

theorem compressor_leaf (o : Option DarwinSignals) (c : CompressorField) :
    (o.bind DarwinSignals.compressor).bind c.get =
      c.get ((o.getD default).compressor.getD default) := by
  rw [bind_eq_getD c.get (by cases c <;> rfl),
    bind_eq_getD DarwinSignals.compressor rfl]

section Codes

variable {V : Type} {table : List (Wire V)} {v unknown : Wire V}

theorem findIdx_code (hlen : table.length < 2 ^ 64) {i : ℕ}
    (h : table.findIdx? (· = v) = some i) :
    (UInt64.ofNat (i + 1)).toNat = i + 1 ∧ i < table.length ∧ table.getD i default = v := by
  obtain ⟨hi, hp, _⟩ := List.findIdx?_eq_some_iff_getElem.mp h
  refine ⟨?_, hi, ?_⟩
  · rw [UInt64.toNat_ofNat']
    omega
  · rw [List.getD_eq_getElem _ _ hi]
    simpa using hp

/-- The code of the entry with index `i` reads as the entry. -/
theorem codeValue_findIdx (hlen : table.length < 2 ^ 64) {i : ℕ}
    (h : table.findIdx? (· = v) = some i) :
    codeValue table unknown (UInt64.ofNat (i + 1)) = v := by
  obtain ⟨hc, hi, hv⟩ := findIdx_code hlen h
  have hne : UInt64.ofNat (i + 1) ≠ 0 := by
    intro h0
    rw [h0] at hc
    simp at hc
  rw [codeValue, if_neg hne, hc, if_pos (by omega), Nat.add_sub_cancel, hv]

/-- A value its table carries reads back, "unknown" as empty. -/
theorem codeValue_pageCode (hlen : table.length < 2 ^ 64)
    (h : (pageCode table v unknown).2 = true) :
    codeValue table unknown (pageCode table v unknown).1 = known v unknown := by
  unfold pageCode at h ⊢
  split_ifs at h ⊢ with hempty
  · rcases hempty with rfl | ⟨_, rfl⟩
    · simp [codeValue, known]
    · simp [codeValue, known]
  · have hv : v ≠ unknown := by
      rintro rfl
      by_cases hu : v = default <;> simp [hu] at hempty
    cases hf : table.findIdx? (· = v) with
    | none => simp [hf] at h
    | some i => simpa [known, hv] using codeValue_findIdx hlen hf

theorem pageCode_toNat_le (hlen : table.length < 2 ^ 64) :
    (pageCode table v unknown).1.toNat ≤ table.length := by
  unfold pageCode
  split_ifs
  · simp
  · cases hf : table.findIdx? (· = v) with
    | none => simp
    | some i =>
      obtain ⟨hc, hi, _⟩ := findIdx_code hlen hf
      dsimp only
      omega

end Codes

theorem signalCodes_length : signalCodes.length < 2 ^ 64 := by decide

theorem pageCodeOf_toNat_le (g : Wire SignalID) : (pageCodeOf g).toNat ≤ signalCodes.length := by
  unfold pageCodeOf codeIn
  cases hf : signalCodes.findIdx? (· = g) with
  | none => simp
  | some i =>
    obtain ⟨hc, hi, _⟩ := findIdx_code signalCodes_length hf
    dsimp only
    omega

/-- A signal with a code, or none at all, reads back. -/
theorem codeValue_signalRef {g : Wire SignalID} (h : (signalRefWord g).2 = true) :
    codeValue signalCodes default (pageCodeOf g) = g := by
  have h' : g = default ∨ pageCodeOf g ≠ 0 := by simpa [signalRefWord] using h
  rcases h' with rfl | hne
  · rfl
  · unfold pageCodeOf codeIn at hne ⊢
    cases hf : signalCodes.findIdx? (· = g) with
    | none => simp [hf] at hne
    | some i => exact codeValue_findIdx signalCodes_length hf

section Fields

variable {n : ℕ} {b : Image n} {name : PageFieldName}

/-- An optional i64 that its row carries reads back. -/
theorem fieldOpt_of_word {o : Option Int64} (hw : fieldWord b name = (i64Word o).1)
    (hc : (i64Word o).2 = true) : fieldOpt b name = o := by
  unfold fieldOpt fieldI64
  rw [hw]
  cases o with
  | none => rfl
  | some v =>
    have hv : v ≠ pageAbsent := by simpa [i64Word] using hc
    simp [i64Word, hv]

/-- A vocabulary value that its row carries reads back, "unknown" as empty. -/
theorem fieldCode_of_word {V : Type} {table : List (Wire V)} {v unknown : Wire V}
    (hlen : table.length < 2 ^ 64) (hw : fieldWord b name = (pageCode table v unknown).1)
    (hc : (pageCode table v unknown).2 = true) :
    fieldCode b name table unknown = known v unknown := by
  rw [fieldCode, hw]
  exact codeValue_pageCode hlen hc

theorem fieldCode_of_signalRef {g : Wire SignalID} (hw : fieldWord b name = (signalRefWord g).1)
    (hc : (signalRefWord g).2 = true) : fieldCode b name signalCodes default = g := by
  rw [fieldCode, hw]
  exact codeValue_signalRef hc

end Fields

@[simp] theorem known_default {V : Type} (v : Wire V) : known v default = v := by
  unfold known
  split_ifs with h <;> simp [h]

theorem carries_word {n : PageFieldName} (h : n.isWord = true) (s : PageSnapshot) :
    (pageFieldSpec n).carries s = ((pageFieldSpec n).get s).2 := by
  cases n <;> simp only [PageFieldName.isWord, Bool.false_eq_true] at h <;> rfl

/-- Visiting the slots in order visits the entries of the list they hold. -/
theorem filterMap_finRange_getElem {α : Type} (n : ℕ) (l : List α) (h : l.length ≤ n) :
    (List.finRange n).filterMap (fun i => l[i.val]?) = l := by
  induction n generalizing l with
  | zero => simp_all
  | succ n ih =>
    cases l with
    | nil => simp
    | cons a l =>
      have hl := ih l (by simpa using h)
      simp [List.finRange_succ, List.filterMap_map, hl]

/-- The taken slots of an array that holds `l` read as the entries of `l`. -/
theorem map_filter_slots {α β : Type} {n : ℕ} {l : List α} (h : l.length ≤ n)
    {taken : Fin n → Prop} [DecidablePred taken] {read : Fin n → β} {f : α → β}
    (htaken : ∀ i : Fin n, taken i ↔ l[i.val]? ≠ none)
    (hread : ∀ (i : Fin n) (a : α), l[i.val]? = some a → read i = f a) :
    ((List.finRange n).filter (fun i => taken i)).map read = l.map f := by
  conv_rhs => rw [← filterMap_finRange_getElem n l h, List.map_filterMap]
  rw [← List.filterMap_eq_map', List.filterMap_filter]
  apply List.filterMap_congr
  intro i _
  cases hi : l[i.val]? with
  | none => simp [htaken, hi]
  | some a => simp [htaken, hi, hread i a hi]

section Decoded

variable {s : PageSnapshot} (hs : Carried s)
include hs

theorem Carried.getter {n : PageFieldName} (h : n.isWord = true) :
    ((pageFieldSpec n).get s).2 = true :=
  carries_word h s ▸ hs.fields n

/-- Every row whose getter is `i64Word` of an optional value reads back as the value. -/
theorem fieldOpt_pageOf {n : PageFieldName} {o : Option Int64} (h : n.isWord = true)
    (hrow : (pageFieldSpec n).get s = i64Word o) : fieldOpt (pageOf s) n = o := by
  apply fieldOpt_of_word
  · rw [fieldWord_pageOf s h, hrow]
  · rw [← hrow, hs.getter h]

/-- Every row whose getter is `pageCode` reads back as the known value. -/
theorem fieldCode_pageOf {V : Type} {table : List (Wire V)} {v unknown : Wire V}
    {n : PageFieldName} (h : n.isWord = true) (hlen : table.length < 2 ^ 64)
    (hrow : (pageFieldSpec n).get s = pageCode table v unknown) :
    fieldCode (pageOf s) n table unknown = known v unknown := by
  apply fieldCode_of_word hlen
  · rw [fieldWord_pageOf s h, hrow]
  · rw [← hrow, hs.getter h]

theorem fieldSignalRef_pageOf {g : Wire SignalID} {n : PageFieldName} (h : n.isWord = true)
    (hrow : (pageFieldSpec n).get s = signalRefWord g) :
    fieldCode (pageOf s) n signalCodes default = g := by
  apply fieldCode_of_signalRef
  · rw [fieldWord_pageOf s h, hrow]
  · rw [← hrow, hs.getter h]

theorem gpuPresent_pageOf : fieldOpt (pageOf s) .gpuPresent =
    s.capacity.gpuPresent.map (fun b => if b then 1 else 0) := by
  apply fieldOpt_pageOf hs rfl
  cases hg : s.capacity.gpuPresent with
  | none => simp [pageFieldSpec, hg, i64Word]
  | some b => cases b <;> simp [pageFieldSpec, hg, i64Word, boolWord, pageAbsent] <;> decide

theorem decodeCapacity_pageOf : decodeCapacity (pageOf s) = s.capacity := by
  have hopt (c : CapacityField) : fieldOpt (pageOf s) (.capacity c) = c.get s.capacity :=
    fieldOpt_pageOf hs rfl rfl
  have hgpu : (fieldOpt (pageOf s) .gpuPresent).map (fun v => decide (v = 1)) =
      s.capacity.gpuPresent := by
    rw [gpuPresent_pageOf hs]
    cases s.capacity.gpuPresent with
    | none => rfl
    | some b => cases b <;> decide
  simp only [decodeCapacity, hopt, CapacityField.get, hgpu]

/-- The darwin leaves read back as those of the block, a nil block as the zero block. -/
theorem decodeDarwin_pageOf :
    decodeDarwin (pageOf s) = (s.darwin.getD default).normalise := by
  have hopt (d : DarwinField) :
      fieldOpt (pageOf s) (.darwin d) = d.get (s.darwin.getD default) := by
    rw [← darwin_leaf]
    exact fieldOpt_pageOf hs rfl rfl
  have hcomp (c : CompressorField) : fieldOpt (pageOf s) (.compressor c) =
      c.get ((s.darwin.getD default).compressor.getD default) := by
    rw [← compressor_leaf]
    exact fieldOpt_pageOf hs rfl rfl
  simp only [decodeDarwin, hopt, hcomp, DarwinField.get, CompressorField.get,
    DarwinSignals.normalise, bind_nonZero]

/-- The linux leaves read back likewise, level by level. -/
theorem decodeLinux_pageOf :
    decodeLinux (pageOf s) = (s.linux.getD default).normalise := by
  have hpsi (r : PSIResourceName) (n : PSILineName) (v : PSIValue) :
      fieldOpt (pageOf s) (.psi r n v) = (s.linux.getD default).psiLeaf r n v := by
    rw [← psi_leaf]
    exact fieldOpt_pageOf hs rfl rfl
  have hevent (e : MemoryEvent) : fieldOpt (pageOf s) (.memoryEvents e) =
      e.get ((s.linux.getD default).memoryEvents.getD default) := by
    rw [← memoryEvent_leaf]
    exact fieldOpt_pageOf hs rfl rfl
  generalize s.linux.getD default = l at hpsi hevent ⊢
  have hresource (r : PSIResourceName) : decodeResource (pageOf s) r =
      ((r.get (l.psi.getD default)).getD default).normalise := by
    simp only [decodeResource, decodeLine, hpsi, LinuxSignals.psiLeaf, PSIValue.get,
      PSILineName.get, PSIResource.normalise, bind_nonZero]
  rw [LinuxSignals.normalise, bind_nonZero_map LinuxPSI.normalise_default]
  simp only [decodeLinux, hresource, hevent, MemoryEvent.get, PSIResourceName.get, bind_nonZero,
    LinuxPSI.normalise, bind_nonZero_map PSIResource.normalise_default]

/-- A signal slot reads back as the signal it holds. -/
theorem decodeSignal_pageOf {i : Fin maxPageSignals} {g : BudgetSignal}
    (hg : signalAt s i = some g) : decodeSignal (pageOf s) i = g.normalise := by
  have hopt (v : SignalValue) : fieldOpt (pageOf s) (.signal i v) = v.get g :=
    fieldOpt_pageOf hs rfl (by simp [pageFieldSpec, hg, slotWord])
  have hid : fieldCode (pageOf s) (.signalId i) signalCodes default = g.id := by
    have hw := fieldWord_pageOf s (n := .signalId i) rfl
    have hc := hs.getter (n := .signalId i) rfl
    simp only [pageFieldSpec, codeRow, hg, slotWord, decide_eq_true_eq] at hw hc
    exact fieldCode_of_signalRef hw (by simp [signalRefWord, hc])
  have hunit : fieldCode (pageOf s) (.signalUnit i) pageUnitCodes default = g.unit := by
    have hw := fieldWord_pageOf s (n := .signalUnit i) rfl
    have hc := hs.getter (n := .signalUnit i) rfl
    simp only [pageFieldSpec, codeRow, hg, slotWord, Bool.and_eq_true] at hw hc
    rw [fieldCode_of_word (by decide) hw hc.1.1, known_default]
  have htrend : fieldCode (pageOf s) (.signalTrend i) pageTrendCodes (word .unknown) =
      known g.trend (word .unknown) :=
    fieldCode_pageOf hs rfl (by decide) (by simp [pageFieldSpec, codeRow, hg, slotWord])
  have hlimiting : fieldCode (pageOf s) (.signalLimitingResource i) pageLimitingResourceCodes
      (word .unknown) = known g.limitingResource (word .unknown) :=
    fieldCode_pageOf hs rfl (by decide) (by simp [pageFieldSpec, codeRow, hg, slotWord])
  have hshared : fieldCode (pageOf s) (.signalSharedWith i) signalCodes default = g.sharedWith :=
    fieldSignalRef_pageOf hs rfl (by simp [pageFieldSpec, codeRow, hg, slotWord])
  simp only [decodeSignal, hopt, hid, hunit, htrend, hlimiting, hshared, SignalValue.get,
    BudgetSignal.normalise]

/-- A slot is taken exactly when it holds a signal. -/
theorem signalSlot_word {i : Fin maxPageSignals} :
    fieldWord (pageOf s) (.signalId i) ≠ 0 ↔ signalAt s i ≠ none := by
  have hw := fieldWord_pageOf s (n := .signalId i) rfl
  have hc := hs.getter (n := .signalId i) rfl
  rw [hw]
  cases hg : signalAt s i with
  | none => simp [pageFieldSpec, codeRow, hg, slotWord]
  | some g => simpa [pageFieldSpec, codeRow, hg, slotWord] using hc

theorem decodeCounter_pageOf {i : Fin maxPageCounters} {c : PageBandCounters}
    (hc : counterAt s i = some c) : decodeCounter (pageOf s) i = c := by
  have htotal (t : CounterTotal) : fieldI64 (pageOf s) (.counter i t) = t.get c := by
    rw [fieldI64, fieldWord_pageOf s rfl]
    simp [pageFieldSpec, hc, slotWord]
  have hband : fieldCode (pageOf s) (.counterBand i) pageBandCodes default = c.band := by
    have hw := fieldWord_pageOf s (n := .counterBand i) rfl
    have hb := hs.getter (n := .counterBand i) rfl
    simp only [pageFieldSpec, codeRow, hc, slotWord, Bool.and_eq_true] at hw hb
    rw [fieldCode_of_word (by decide) hw hb.1, known_default]
  simp only [decodeCounter, htotal, hband, CounterTotal.get]

theorem counterSlot_word {i : Fin maxPageCounters} :
    fieldWord (pageOf s) (.counterBand i) ≠ 0 ↔ counterAt s i ≠ none := by
  have hw := fieldWord_pageOf s (n := .counterBand i) rfl
  have hb := hs.getter (n := .counterBand i) rfl
  rw [hw]
  cases hc : counterAt s i with
  | none => simp [pageFieldSpec, codeRow, hc, slotWord]
  | some c =>
    simp only [pageFieldSpec, codeRow, hc, slotWord, Bool.and_eq_true, decide_eq_true_eq] at hb
    simpa [pageFieldSpec, codeRow, hc, slotWord] using hb.2

theorem decodeSignals_pageOf : (signalSlots (pageOf s)).map (decodeSignal (pageOf s)) =
    s.signals.list.map BudgetSignal.normalise :=
  map_filter_slots hs.signals (fun _ => signalSlot_word hs) (fun _ _ => decodeSignal_pageOf hs)

theorem decodeCounters_pageOf :
    (counterSlots (pageOf s)).map (decodeCounter (pageOf s)) = s.counters.list := by
  have h := map_filter_slots (f := id) hs.counters (fun _ => counterSlot_word hs)
    (fun _ _ => decodeCounter_pageOf hs)
  rwa [List.map_id] at h

theorem decodePlatform_pageOf : decodePlatform (pageOf s) = s.platform := by
  rw [decodePlatform, fieldCode_pageOf hs (v := s.platform) rfl (by decide) rfl, known_default]

theorem nodeNameLen_pageOf :
    (fieldWord (pageOf s) .nodeNameLen).toNat = s.nodeName.length := by
  have hlen := hs.nameLength
  rw [maxPageNodeNameBytes] at hlen
  rw [fieldWord_pageOf s rfl]
  change s.nodeName.length.toUInt64.toNat = _
  simp only [Nat.toUInt64_eq, UInt64.toNat_ofNat']
  omega

/-- The name's bytes are those its length announces. -/
theorem nodeName_pageOf :
    slice (pageOf s) (pageOffset .nodeName) (fieldWord (pageOf s) .nodeNameLen).toNat =
      s.nodeName := by
  have hlen := hs.nameLength
  have hbytes : (pageFieldSpec .nodeName).encode s = s.nodeName :=
    List.take_of_length_le (le_trans hlen (by decide))
  have hslice := slice_pageOf s .nodeName
  rw [hbytes] at hslice
  rw [nodeNameLen_pageOf hs, hslice]

omit hs in
theorem evictDeadline_pageOf (ht : s.TimesCarried) :
    (fieldOpt (pageOf s) .evictDeadline).map Time.ofUnix =
      s.evictDeadline.map Time.wholeSeconds := by
  have hopt : fieldOpt (pageOf s) .evictDeadline = s.evictDeadline.map Time.unix := by
    have hw := fieldWord_pageOf s (n := .evictDeadline) rfl
    apply fieldOpt_of_word
    · rw [hw]
      cases hd : s.evictDeadline <;> simp [pageFieldSpec, hd, i64Word]
    · cases hd : s.evictDeadline with
      | none => rfl
      | some t => simpa [i64Word] using (ht.evictDeadline t hd).2
  rw [hopt, Option.map_map]
  rfl

theorem decodeKillMode_pageOf :
    (decodeFields (pageOf s)).killMode =
      { s.killMode with reason := known s.killMode.reason (word .unknown) } := by
  have hmode : fieldCode (pageOf s) .killModeMode pageKillModeCodes default =
      s.killMode.mode := by
    rw [fieldCode_pageOf hs (v := s.killMode.mode) rfl (by decide) rfl, known_default]
  have harmed : decide (fieldWord (pageOf s) .killModeArmed = 1) = s.killMode.armed := by
    rw [fieldWord_pageOf s rfl]
    cases hb : s.killMode.armed <;> simp [pageFieldSpec, boolWord, hb]
  have hepisodes : (fieldI64 (pageOf s) .killModeArmingEpisodes).toInt32 =
      s.killMode.armingEpisodes := by
    rw [fieldI64, fieldWord_pageOf s rfl]
    simp [pageFieldSpec]
  have hreason : fieldCode (pageOf s) .killModeReason pageKillModeReasonCodes (word .unknown) =
      known s.killMode.reason (word .unknown) :=
    fieldCode_pageOf hs rfl (by decide) rfl
  simp only [decodeFields, hmode, harmed, hepisodes, hreason]

theorem decodeDarwinBlock_pageOf :
    (if s.platform = word .darwin then some (decodeDarwin (pageOf s)) else none) =
      s.darwin.map DarwinSignals.normalise := by
  rw [decodeDarwin_pageOf hs]
  obtain ⟨p, hp⟩ := Wire.valid_iff.mp hs.platform
  cases p with
  | darwin =>
    obtain ⟨d, hd⟩ := Option.ne_none_iff_exists'.mp (hs.darwinBlock hp)
    simp [hp, hd]
  | linux => simp [hp, (hs.linuxBlock hp).2]

theorem decodeLinuxBlock_pageOf :
    (if s.platform = word .linux then some (decodeLinux (pageOf s))
      else nonZero (decodeLinux (pageOf s))) =
      if s.platform = word .linux then s.linux.map LinuxSignals.normalise
      else s.linux.bind (fun l => nonZero l.normalise) := by
  rw [decodeLinux_pageOf hs]
  split_ifs with hp
  · obtain ⟨l, hl⟩ := Option.ne_none_iff_exists'.mp (hs.linuxBlock hp).1
    simp [hl]
  · exact (bind_nonZero_map LinuxSignals.normalise_default _).symm

/-- Every field reads back as the normal form has it. -/
theorem decodeFields_pageOf (ht : s.TimesCarried) : decodeFields (pageOf s) = s.normalise := by
  have hgeneration : fieldI64 (pageOf s) .generation = s.generation := by
    rw [fieldI64, fieldWord_pageOf s rfl]
    simp [pageFieldSpec]
  have hperiod : fieldI64 (pageOf s) .writerPeriodSeconds = s.writerPeriodSeconds := by
    rw [fieldI64, fieldWord_pageOf s rfl]
    simp [pageFieldSpec]
  have hobserved : fieldI64 (pageOf s) .observedAt = s.observedAt.unix := by
    rw [fieldI64, fieldWord_pageOf s rfl]
    simp [pageFieldSpec]
  have hlevel : fieldCode (pageOf s) .level pageLevelCodes default = s.level := by
    rw [fieldCode_pageOf hs (v := s.level) rfl (by decide) rfl, known_default]
  have hadmit : decide (fieldWord (pageOf s) .admits = 1) = s.admits := by
    rw [fieldWord_pageOf s rfl]
    cases hb : s.admits <;> simp [pageFieldSpec, boolWord, hb]
  have hreason : fieldCode (pageOf s) .admitReasonSignal signalCodes default =
      s.admitReasonSignal := fieldSignalRef_pageOf hs rfl rfl
  have hsafe : fieldOpt (pageOf s) .safeAdditionalBytes = s.recommendation.safeAdditionalBytes :=
    fieldOpt_pageOf hs rfl rfl
  have hbasis : fieldCode (pageOf s) .basis signalCodes default = s.recommendation.basis :=
    fieldSignalRef_pageOf hs rfl rfl
  have hkill := decodeKillMode_pageOf hs
  simp only [decodeFields] at hkill
  simp only [decodeFields, hgeneration, hperiod, hobserved, hlevel, hadmit, hreason, hsafe,
    hbasis, hkill, nodeName_pageOf hs, decodePlatform_pageOf hs, decodeCapacity_pageOf hs,
    decodeDarwinBlock_pageOf hs, decodeLinuxBlock_pageOf hs, decodeSignals_pageOf hs,
    decodeCounters_pageOf hs, evictDeadline_pageOf ht, PageSnapshot.normalise,
    Time.wholeSeconds]

omit hs in
/-- No word of an encoded page is beyond its table. -/
theorem badCode_pageOf {V : Type} {table : List (Wire V)} {n : PageFieldName}
    (h : n.isWord = true) (hle : ((pageFieldSpec n).get s).1.toNat ≤ table.length) :
    badCode (pageOf s) n table = none := by
  rw [badCode, fieldWord_pageOf s h]
  exact if_pos hle

omit hs in
theorem slotWord_toNat_le {α : Type} {get : α → UInt64 × Bool} {bound : ℕ}
    (h : ∀ a, (get a).1.toNat ≤ bound) (o : Option α) : (slotWord get o).1.toNat ≤ bound := by
  cases o with
  | none => simp [slotWord]
  | some a => exact h a

omit hs in
theorem badCodes_pageOf : (badCodes (pageOf s)).findSome? id = none := by
  have hsig : ∀ g, (pageCodeOf g).toNat ≤ signalCodes.length := pageCodeOf_toNat_le
  have hunit : ∀ u, (pageCode pageUnitCodes u default).1.toNat ≤ pageUnitCodes.length :=
    fun _ => pageCode_toNat_le (by decide)
  have hband : ∀ c, (pageCode pageBandCodes c default).1.toNat ≤ pageBandCodes.length :=
    fun _ => pageCode_toNat_le (by decide)
  have hsignals (i : Fin maxPageSignals) :
      badCode (pageOf s) (.signalId i) signalCodes = none ∧
      badCode (pageOf s) (.signalUnit i) pageUnitCodes = none ∧
      badCode (pageOf s) (.signalSharedWith i) signalCodes = none :=
    ⟨badCode_pageOf rfl (slotWord_toNat_le (fun g => hsig g.id) _),
      badCode_pageOf rfl (slotWord_toNat_le (by intro g; exact hunit g.unit) _),
      badCode_pageOf rfl (slotWord_toNat_le (fun g => hsig g.sharedWith) _)⟩
  have hbands (i : Fin maxPageCounters) :
      badCode (pageOf s) (.counterBand i) pageBandCodes = none :=
    badCode_pageOf rfl (slotWord_toNat_le (by intro c; exact hband c.band) _)
  have hplatform : badCode (pageOf s) .platform pagePlatformCodes = none :=
    badCode_pageOf rfl (pageCode_toNat_le (by decide))
  have hlevel : badCode (pageOf s) .level pageLevelCodes = none :=
    badCode_pageOf rfl (pageCode_toNat_le (by decide))
  have hreason : badCode (pageOf s) .admitReasonSignal signalCodes = none :=
    badCode_pageOf rfl (hsig s.admitReasonSignal)
  have hmode : badCode (pageOf s) .killModeMode pageKillModeCodes = none :=
    badCode_pageOf rfl (pageCode_toNat_le (by decide))
  have hbasis : badCode (pageOf s) .basis signalCodes = none :=
    badCode_pageOf rfl (hsig s.recommendation.basis)
  rw [List.findSome?_eq_none_iff]
  simp only [badCodes, List.mem_append, List.mem_cons, List.mem_flatMap, List.mem_map,
    List.not_mem_nil, or_false, hplatform, hlevel, hsignals, hreason, hmode, hbasis, hbands]
  grind

omit hs in
/-- A header integer narrower than a word reads back. -/
theorem uintAt_pageOf {n : PageFieldName} {width v : ℕ}
    (h : (pageFieldSpec n).encode s = leBytes width v) (hv : v < 256 ^ width) :
    uintAt (pageOf s) (pageOffset n) width = v := by
  have hslice := slice_pageOf s n
  rw [h, leBytes_length] at hslice
  rw [uintAt, hslice, leNat_leBytes, Nat.mod_eq_of_lt hv]

/-- The reader accepts every encoded page and reads the normal form. -/
theorem decodePage_pageOf (ht : s.TimesCarried) : decodePage (pageOf s) = .ok s.normalise := by
  have hmagic : slice (pageOf s) 0 pageMagic.length = pageMagic := by
    have hslice := slice_pageOf s .magic
    rwa [show pageOffset .magic = 0 by decide +kernel] at hslice
  have hmajor : uintAt (pageOf s) (pageOffset .abiMajor) 2 = pageABIMajor :=
    uintAt_pageOf rfl (by decide)
  have hheader : uintAt (pageOf s) (pageOffset .headerSize) 4 = pageHeaderSize :=
    uintAt_pageOf rfl (by decide)
  have hbody : uintAt (pageOf s) (pageOffset .bodySize) 4 = pageBodySize :=
    uintAt_pageOf rfl (by rw [pageBodySize, pageBodyEnd_eq]; decide)
  have hseq : wordAt (pageOf s) pageSeqOffset = 0 := by
    have hw := fieldWord_pageOf s (n := .seq) rfl
    rwa [fieldWord, show pageOffset .seq = pageSeqOffset by decide +kernel] at hw
  have hname := hs.nameLength
  have hsize : pageHeaderSize + pageBodySize ≤ pageSize := by
    rw [pageBodySize, pageBodyEnd_eq]
    decide
  simp only [decodePage, hmagic, hmajor, hheader, hbody, hseq, nodeNameLen_pageOf hs,
    gpuPresent_pageOf hs, badCodes_pageOf, decodeFields_pageOf hs ht]
  rw [if_neg (by decide), if_neg (by simp), if_neg (by simp), if_neg (by simp),
    if_neg (by simp), if_neg (by omega), if_neg (by decide), if_neg (by omega)]
  cases s.capacity.gpuPresent with
  | none => rfl
  | some b => cases b <;> rfl

end Decoded

section NormalForm

theorem pageCode_known {V : Type} {table : List (Wire V)} {v unknown : Wire V}
    (h : unknown ≠ default) :
    pageCode table (known v unknown) unknown = pageCode table v unknown := by
  unfold known
  split_ifs with hv
  · simp [pageCode, hv, h]
  · rfl

theorem psiLeaf_normalise (l : LinuxSignals) (r : PSIResourceName) (n : PSILineName)
    (v : PSIValue) : l.normalise.psiLeaf r n v = l.psiLeaf r n v := by
  have hpsi : l.normalise.psi.getD default = (l.psi.getD default).normalise := by
    rw [LinuxSignals.normalise, bind_nonZero_map LinuxPSI.normalise_default, nonZero_getD]
  rw [LinuxSignals.psiLeaf, LinuxSignals.psiLeaf, hpsi]
  generalize l.psi.getD default = p
  have hres : (r.get p.normalise).getD default = ((r.get p).getD default).normalise := by
    cases r <;> simp only [PSIResourceName.get, LinuxPSI.normalise,
      bind_nonZero_map PSIResource.normalise_default, nonZero_getD]
  rw [hres]
  generalize (r.get p).getD default = q
  cases n <;> simp only [PSILineName.get, PSIResource.normalise, bind_nonZero, nonZero_getD]

variable {s : PageSnapshot}

theorem linux_normalise_getD :
    s.normalise.linux.getD default = (s.linux.getD default).normalise := by
  rw [PageSnapshot.normalise]
  dsimp only
  split_ifs
  · cases s.linux <;> rfl
  · rw [bind_nonZero_map LinuxSignals.normalise_default, nonZero_getD]

theorem darwin_normalise_getD :
    s.normalise.darwin.getD default = (s.darwin.getD default).normalise := by
  rw [PageSnapshot.normalise]
  cases s.darwin <;> rfl

theorem signalAt_normalise (i : Fin maxPageSignals) :
    signalAt s.normalise i = (signalAt s i).map BudgetSignal.normalise := by
  simp [signalAt, PageSnapshot.normalise]

theorem counterAt_normalise (i : Fin maxPageCounters) :
    counterAt s.normalise i = counterAt s i := by
  simp [counterAt, PageSnapshot.normalise]

theorem slotWord_map {α : Type} {get : α → UInt64 × Bool} {f : α → α}
    (h : ∀ a, get (f a) = get a) (o : Option α) : slotWord get (o.map f) = slotWord get o := by
  cases o with
  | none => rfl
  | some a => exact h a

/-- Every row of an accepted snapshot says the same about its normal form. -/
theorem get_normalise (hs : Carried s) (ht : s.TimesCarried) (n : PageFieldName) :
    (pageFieldSpec n).get s.normalise = (pageFieldSpec n).get s := by
  cases n with
  | observedAt =>
    have hz := hs.getter (n := .observedAt) rfl
    simp only [pageFieldSpec, Bool.not_eq_true'] at hz
    simp [pageFieldSpec, PageSnapshot.normalise, ht.observedAt, hz]
  | darwin d =>
    simp only [pageFieldSpec, optRow, darwin_leaf, darwin_normalise_getD]
    cases d <;> rfl
  | compressor c =>
    simp only [pageFieldSpec, optRow, compressor_leaf, darwin_normalise_getD,
      DarwinSignals.normalise, bind_nonZero, nonZero_getD]
  | psi r l v =>
    simp only [pageFieldSpec, optRow, psi_leaf, linux_normalise_getD, psiLeaf_normalise]
  | memoryEvents e =>
    simp only [pageFieldSpec, optRow, memoryEvent_leaf, linux_normalise_getD,
      LinuxSignals.normalise, bind_nonZero, nonZero_getD]
  | signalId i | signalUnit i | signalSharedWith i =>
    simp only [pageFieldSpec, codeRow, signalAt_normalise]
    exact slotWord_map (by intro g; rfl) _
  | signal i v =>
    simp only [pageFieldSpec, signalAt_normalise]
    exact slotWord_map (fun _ => by cases v <;> rfl) _
  | signalTrend i | signalLimitingResource i =>
    simp only [pageFieldSpec, codeRow, signalAt_normalise]
    exact slotWord_map (fun _ => pageCode_known (word_ne_default _)) _
  | evictDeadline =>
    have hz := hs.getter (n := .evictDeadline) rfl
    cases hd : s.evictDeadline with
    | none => simp [pageFieldSpec, PageSnapshot.normalise, hd]
    | some t =>
      simp only [pageFieldSpec, hd, Bool.not_eq_true'] at hz
      simp [pageFieldSpec, PageSnapshot.normalise, hd, hz, (ht.evictDeadline t hd).1]
  | killModeReason => exact pageCode_known (word_ne_default _)
  | counterBand i | counter i t => simp only [pageFieldSpec, codeRow, counterAt_normalise]
  | _ => rfl

theorem PageField.encode_congr {f : PageField} {t : PageSnapshot} (hget : f.get s = f.get t)
    (hname : s.nodeName = t.nodeName) : f.encode s = f.encode t := by
  simp only [PageField.encode, hget, hname]

/-- The normal form has the same page. -/
theorem pageOf_normalise (hs : Carried s) (ht : s.TimesCarried) :
    pageOf s.normalise = pageOf s := by
  rw [pageOf, pageOf]
  congr 1
  apply List.map_congr_left
  intro f hf
  have hget : f.get s.normalise = f.get s := by
    rw [pageLayout_row hf]
    exact get_normalise hs ht f.name
  rw [PageField.encode_congr hget rfl]

theorem carried_normalise (hs : Carried s) (ht : s.TimesCarried) : Carried s.normalise where
  nameLength := hs.nameLength
  nameNonempty := hs.nameNonempty
  period := hs.period
  platform := hs.platform
  level := hs.level
  signals := by simpa [PageSnapshot.normalise] using hs.signals
  counters := by simpa [PageSnapshot.normalise] using hs.counters
  darwinBlock hp := by simpa [PageSnapshot.normalise] using hs.darwinBlock hp
  linuxBlock hp := by
    have hp' : s.platform = word .linux := hp
    simpa [PageSnapshot.normalise, hp'] using hs.linuxBlock hp
  fields n := by
    have hget := get_normalise hs ht n
    have hc := hs.fields n
    simp only [PageField.carries, hget] at hc ⊢
    exact hc

end NormalForm

/-- The page round trip. For every accepted snapshot whose times the page can carry,
reading the page gives the normal form, the normal form encodes to the same page,
and another such snapshot has the same page exactly when it has the same normal
form. -/
theorem encodePage_roundTrip {s : PageSnapshot} {page : Page} (h : encodePage s = .ok page)
    (ht : s.TimesCarried) :
    decodePage page = .ok s.normalise ∧ encodePage s.normalise = .ok page ∧
      ∀ (s' : PageSnapshot) (page' : Page), encodePage s' = .ok page' → s'.TimesCarried →
        (page = page' ↔ s.normalise = s'.normalise) := by
  obtain ⟨hs, rfl⟩ := encodePage_ok.mp h
  refine ⟨decodePage_pageOf hs ht, ?_, ?_⟩
  · exact encodePage_ok.mpr ⟨carried_normalise hs ht, (pageOf_normalise hs ht).symm⟩
  · intro s' page' h' ht'
    obtain ⟨hs', rfl⟩ := encodePage_ok.mp h'
    constructor
    · intro heq
      have hd := decodePage_pageOf hs' ht'
      rw [← heq, decodePage_pageOf hs ht] at hd
      exact Except.ok.inj hd
    · intro heq
      rw [← pageOf_normalise hs ht, heq, pageOf_normalise hs' ht']

/-- A darwin snapshot with a fraction in its time, an "unknown" trend, an all-absent
compressor and linux block and an empty counter slice. -/
def unevenSnapshot : PageSnapshot where
  generation := 7
  writerPeriodSeconds := 10
  nodeName := lit "mac-1"
  observedAt := ⟨1700000000, ⟨500, by decide⟩, .localTime⟩
  platform := word .darwin
  level := word .warn
  darwin := some { vmPressureLevel := some 2, compressor := some {} }
  linux := some { psi := some { cpu := some {} } }
  signals := some [{ id := word .memorySwap, unit := word .bytes, value := some (-1),
                     trend := word .unknown }]
  evictDeadline := some ⟨1700000060, ⟨1, by decide⟩, .utc⟩
  counters := some []

theorem unevenSnapshot_roundTrip :
    encodePage unevenSnapshot = .ok (pageOf unevenSnapshot) ∧ unevenSnapshot.TimesCarried ∧
      unevenSnapshot.normalise ≠ unevenSnapshot ∧
      decodePage (pageOf unevenSnapshot) = .ok unevenSnapshot.normalise ∧
      encodePage unevenSnapshot.normalise = .ok (pageOf unevenSnapshot) := by
  have h : encodePage unevenSnapshot = .ok (pageOf unevenSnapshot) :=
    encodePage_of_checks (by decide +kernel) (by decide +kernel)
  have ht : unevenSnapshot.TimesCarried := ⟨by decide, by decide⟩
  obtain ⟨hdecode, hencode, _⟩ := encodePage_roundTrip h ht
  exact ⟨h, ht, by decide, hdecode, hencode⟩

end K3smApis.Budget
