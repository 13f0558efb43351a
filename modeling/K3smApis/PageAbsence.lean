import K3smApis.PageRoundTrip

/-!
# Absence on the page

An absent-capable field holds the sentinel `PageAbsent` when the producer could not
sample its value. `i64Word` refuses a present value equal to the sentinel; the getter
of `evictDeadline` is written without that guard.
-/
namespace K3smApis.Budget
open ByteImage

/-- The leaf `get` of an optional block is nil, or the block is. -/
def NilIn {α β : Type} (block : Option α) (get : α → Option β) : Prop :=
  ∀ a ∈ block, get a = none

theorem nilIn_iff_bind {α β : Type} {block : Option α} {get : α → Option β} :
    NilIn block get ↔ block.bind get = none := by
  cases block <;> simp [NilIn]

/-- The snapshot field a row of the layout mirrors is nil, or a block that contains it
is. Rows of values that are never nil are not absent-capable. -/
def PageFieldName.IsNil : PageFieldName → PageSnapshot → Prop
  | .capacity c, s => c.get s.capacity = none
  | .gpuPresent, s => s.capacity.gpuPresent = none
  | .darwin d, s => NilIn s.darwin d.get
  | .compressor c, s => ∀ d ∈ s.darwin, NilIn d.compressor c.get
  | .psi r l v, s => ∀ x ∈ s.linux, ∀ p ∈ x.psi, ∀ q ∈ r.get p, NilIn (l.get q) v.get
  | .memoryEvents e, s => ∀ x ∈ s.linux, NilIn x.memoryEvents e.get
  | .signal i v, s => ∀ g ∈ signalAt s i, v.get g = none
  | .evictDeadline, s => s.evictDeadline = none
  | .safeAdditionalBytes, s => s.recommendation.safeAdditionalBytes = none
  | _, _ => False

/-- A row outside the slot arrays, or in a slot the snapshot fills. -/
def PageFieldName.Occupied : PageFieldName → PageSnapshot → Prop
  | .signalId i, s | .signalUnit i, s | .signal i _, s | .signalTrend i, s
  | .signalLimitingResource i, s | .signalSharedWith i, s => i.val < s.signals.list.length
  | .counterBand i, s | .counter i _, s => i.val < s.counters.list.length
  | _, _ => True

/-- Every row of the layout reads back its getter's word at its own offset. -/
theorem wordAt_pageOf (s : PageSnapshot) {f : PageField} (hf : f ∈ pageLayout)
    (h : f.name.isWord = true) : wordAt (pageOf s) f.offset = (f.get s).1 := by
  have hslice := slice_pageOf_row s hf
  have hrow := pageLayout_row hf
  have hget : f.get = (pageFieldSpec f.name).get := by rw [hrow, pageFieldSpec_name]
  have hbytes : f.encode s = leBytes 8 (f.get s).1.toNat := by
    rw [hget, ← encode_word h s]
    conv_lhs => rw [hrow]
    rfl
  apply wordAt_of_slice
  rw [hbytes, leBytes_length] at hslice
  exact hslice

theorem toUInt64_eq_absentWord {v : Int64} : v.toUInt64 = pageAbsentWord ↔ v = pageAbsent := by
  have h : pageAbsent.toUInt64 = pageAbsentWord := by decide
  constructor
  · intro hv
    have hback := congrArg UInt64.toInt64 (hv.trans h.symm)
    simpa using hback
  · rintro rfl
    exact h

/-- A word `i64Word` carries is the sentinel only for nil. -/
theorem i64Word_eq_absentWord {o : Option Int64} (h : (i64Word o).2 = true) :
    (i64Word o).1 = pageAbsentWord ↔ o = none := by
  cases o with
  | none => simp [i64Word]
  | some v =>
    have hv : v ≠ pageAbsent := of_decide_eq_true h
    simp only [i64Word, toUInt64_eq_absentWord, reduceCtorEq, iff_false]
    exact hv

theorem boolWord_ne_absentWord (b : Bool) : (boolWord b).1 ≠ pageAbsentWord := by
  cases b <;> decide

theorem forall_mem_bind {α β : Type} {o : Option α} {f : α → Option β} {P : β → Prop} :
    (∀ b ∈ o.bind f, P b) ↔ ∀ a ∈ o, ∀ b ∈ f a, P b := by
  cases o <;> simp

/-- Every absent-capable row but `evictDeadline` holds the sentinel exactly for nil. -/
theorem absentWord_iff_isNil {s : PageSnapshot} (hs : Carried s) {n : PageFieldName}
    (habsent : (pageFieldSpec n).absent = true) (hocc : n.Occupied s) (hne : n ≠ .evictDeadline) :
    ((pageFieldSpec n).get s).1 = pageAbsentWord ↔ n.IsNil s := by
  have hcar := hs.fields n
  cases n with
  | capacity c => exact i64Word_eq_absentWord hcar
  | safeAdditionalBytes => exact i64Word_eq_absentWord hcar
  | darwin d =>
    rw [PageFieldName.IsNil, nilIn_iff_bind]
    exact i64Word_eq_absentWord hcar
  | compressor c =>
    refine (i64Word_eq_absentWord hcar).trans ?_
    rw [← nilIn_iff_bind, NilIn, forall_mem_bind]
    rfl
  | psi r l v =>
    refine (i64Word_eq_absentWord hcar).trans ?_
    rw [← nilIn_iff_bind, NilIn]
    simp only [forall_mem_bind]
    rfl
  | memoryEvents e =>
    refine (i64Word_eq_absentWord hcar).trans ?_
    rw [← nilIn_iff_bind, NilIn, forall_mem_bind]
    rfl
  | gpuPresent =>
    cases hg : s.capacity.gpuPresent with
    | none => simp [pageFieldSpec, PageFieldName.IsNil, hg]
    | some b =>
      simp only [pageFieldSpec, PageFieldName.IsNil, hg, reduceCtorEq, iff_false]
      exact boolWord_ne_absentWord b
  | signal i v =>
    obtain ⟨g, hg⟩ : ∃ g, signalAt s i = some g := ⟨_, List.getElem?_eq_getElem hocc⟩
    have hword : (i64Word (v.get g)).2 = true := by
      have h := hcar
      simp only [PageField.carries, pageFieldSpec, hg, slotWord] at h
      exact h
    simp only [pageFieldSpec, PageFieldName.IsNil, hg, slotWord, Option.mem_some_iff,
      forall_eq']
    exact i64Word_eq_absentWord hword
  | evictDeadline => exact absurd rfl hne
  | _ => simp [pageFieldSpec, codeRow] at habsent

theorem PageFieldName.isWord_of_absent {n : PageFieldName}
    (h : (pageFieldSpec n).absent = true) : n.isWord = true := by
  cases n <;> first | rfl | simp [pageFieldSpec] at h

/-- The word of `evictDeadline` is the sentinel for nil and for the one deadline whose
Unix seconds are the sentinel. -/
theorem evictDeadline_absentWord {s : PageSnapshot} :
    ((pageFieldSpec .evictDeadline).get s).1 = pageAbsentWord ↔
      ∀ t ∈ s.evictDeadline, t.unix = pageAbsent := by
  cases hd : s.evictDeadline with
  | none => simp [pageFieldSpec, hd]
  | some t => simp [pageFieldSpec, hd, toUInt64_eq_absentWord]

/-- On the page of an accepted snapshot every absent-capable field holds the sentinel
exactly when its value or a block around it is nil, if and only if the deadline is not
the instant whose Unix seconds equal the sentinel. -/
theorem absence_faithful_iff {s : PageSnapshot} {page : Page} (h : encodePage s = .ok page) :
    (∀ f ∈ pageLayout, f.absent = true → f.name.Occupied s →
      (wordAt page f.offset = pageAbsentWord ↔ f.name.IsNil s)) ↔
      ∀ t ∈ s.evictDeadline, t.unix ≠ pageAbsent := by
  obtain ⟨hs, rfl⟩ := encodePage_ok.mp h
  have hrow {f : PageField} (hf : f ∈ pageLayout) :
      f.get = (pageFieldSpec f.name).get ∧ f.absent = (pageFieldSpec f.name).absent := by
    rw [pageLayout_row hf]
    exact ⟨by rw [pageFieldSpec_name], by rw [pageFieldSpec_name]⟩
  constructor
  · intro hall t ht hunix
    have hmem := pageLayout_mem .evictDeadline
    have hiff := hall _ hmem rfl trivial
    rw [wordAt_pageOf s hmem rfl] at hiff
    have hword : ((pageFieldSpec .evictDeadline).get s).1 = pageAbsentWord := by
      rw [evictDeadline_absentWord]
      intro t' ht'
      rwa [Option.mem_unique ht' ht]
    have hnil : s.evictDeadline = none := hiff.mp hword
    rw [hnil] at ht
    exact absurd ht (by simp)
  · intro hdeadline f hf habsent hocc
    have hspec := habsent
    rw [(hrow hf).2] at hspec
    rw [wordAt_pageOf s hf (PageFieldName.isWord_of_absent hspec), (hrow hf).1]
    by_cases hne : f.name = .evictDeadline
    · -- the one getter without the guard
      rw [hne, evictDeadline_absentWord]
      constructor
      · intro hall
        cases hd : s.evictDeadline with
        | none => exact hd
        | some t => exact absurd (hall t hd) (hdeadline t hd)
      · intro hnil t ht
        have hd : s.evictDeadline = none := hnil
        rw [hd] at ht
        exact absurd ht (by simp)
    · exact absentWord_iff_isNil hs hspec hocc hne

/-- A snapshot whose deadline is the instant of the sentinel. -/
def sentinelDeadline : PageSnapshot where
  writerPeriodSeconds := 1
  nodeName := lit "n"
  observedAt := .ofUnix 1
  platform := word .linux
  level := word .ok
  linux := some {}
  evictDeadline := some (.ofUnix pageAbsent)

/-- The encoder accepts it and the page reads as if there were no deadline. -/
theorem sentinelDeadline_absent :
    encodePage sentinelDeadline = .ok (pageOf sentinelDeadline) ∧
      ¬∀ f ∈ pageLayout, f.absent = true → f.name.Occupied sentinelDeadline →
        (wordAt (pageOf sentinelDeadline) f.offset = pageAbsentWord ↔
          f.name.IsNil sentinelDeadline) := by
  refine ⟨encodePage_of_checks (by decide) (by decide +kernel), ?_⟩
  intro hall
  have hmem := pageLayout_mem .evictDeadline
  have hiff := hall _ hmem rfl trivial
  rw [wordAt_pageOf sentinelDeadline hmem rfl] at hiff
  have hnil : sentinelDeadline.evictDeadline = none := hiff.mp (by decide)
  exact absurd hnil (by decide)

theorem absence_faithful_iff_unevenSnapshot :
    encodePage unevenSnapshot = .ok (pageOf unevenSnapshot) ∧
      ∀ f ∈ pageLayout, f.absent = true → f.name.Occupied unevenSnapshot →
        (wordAt (pageOf unevenSnapshot) f.offset = pageAbsentWord ↔
          f.name.IsNil unevenSnapshot) := by
  have henc := encodePage_of_checks (s := unevenSnapshot) (by decide) (by decide +kernel)
  exact ⟨henc, (absence_faithful_iff henc).mpr (by decide)⟩

end K3smApis.Budget
