import K3smApis.NotifyEpoch
import K3smApis.SeqlockTakeover
import K3smApis.PageRoundTrip
import K3smApis.PageTable

/-!
# What a reader of the page decodes

A reader checks the header line, copies the body under the seqlock and decodes the copy.
What it decodes depends on the header through its checks only and on the body row by row.
So the header may have been loaded at another time than the body, and the page may be one of
a later minor: the rows it knows are where they were.
-/
namespace K3smApis.Budget
open ByteImage RowLayout AtomicProgram Check PageFieldName

section Reader

variable {n n' : ℕ} {b : Image n} {b' : Image n'}

/-- The checks `decodePage` makes before it reads the body. -/
structure HeaderPasses (b : Image n) : Prop where
  magic : slice b 0 pageMagic.length = pageMagic
  abiMajor : uintAt b (pageOffset .abiMajor) 2 = pageABIMajor
  headerSize : uintAt b (pageOffset .headerSize) 4 = pageHeaderSize
  known : pageBodySize ≤ uintAt b (pageOffset .bodySize) 4
  fits : pageHeaderSize + uintAt b (pageOffset .bodySize) 4 ≤ n
  even : wordAt b pageSeqOffset % 2 = 0

/-- The rest of `decodePage`. -/
def decodeBody (b : Image n) : Except PageReadError PageSnapshot :=
  let nameLen := (fieldWord b .nodeNameLen).toNat
  let fields := ((badCodes b).findSome? id).elim (.ok (decodeFields b)) .error
  if maxPageNodeNameBytes < nameLen then
    .error ⟨.corrupt, [.s "nodeNameLen ", .d nameLen, .s " above ", .d maxPageNodeNameBytes]⟩
  else (fieldOpt b .gpuPresent).elim fields fun v =>
    if v ≠ 0 ∧ v ≠ 1 then
      .error ⟨.corrupt, [.s "capacity.gpuPresent holds ", .d v.toInt, .s ", want 0 or 1"]⟩
    else fields

theorem decodePage_of_header (h : HeaderPasses b) : decodePage b = decodeBody b := by
  have hsize : pageSeqOffset ≤ n := by
    have hfits := h.fits
    have hlt : pageSeqOffset ≤ pageHeaderSize := by decide
    omega
  have heven : ¬wordAt b pageSeqOffset % 2 = 1 := by
    rw [h.even]
    decide
  unfold decodePage decodeBody
  dsimp only
  rw [if_neg (not_lt.mpr hsize), if_neg (not_not.mpr h.magic), if_neg (not_not.mpr h.abiMajor),
    if_neg (not_not.mpr h.headerSize), if_neg (not_lt.mpr h.known), if_neg (not_lt.mpr h.fits),
    if_neg heven]
  split_ifs with hlong
  · rfl
  · cases fieldOpt b .gpuPresent <;> simp only [Option.elim_none, Option.elim_some]

/-- The two images hold the same bytes in every row of the body. -/
def RowsAgree (b : Image n) (b' : Image n') : Prop :=
  ∀ name ∉ headerNames, slice b (pageOffset name) (pageFieldSpec name).size =
    slice b' (pageOffset name) (pageFieldSpec name).size

/-- The rows of the body that are one word. -/
@[reducible] def PageFieldName.isBodyWord : PageFieldName → Bool
  | .magic | .abiMajor | .abiMinor | .headerSize | .bodySize | .seq | .notifyEpoch
  | .nodeName => false
  | _ => true

theorem PageFieldName.isBodyWord_spec {name : PageFieldName} (h : name.isBodyWord = true) :
    name ∉ headerNames ∧ (pageFieldSpec name).size = 8 := by
  cases name <;> simp only [isBodyWord, Bool.false_eq_true] at h <;>
    exact ⟨by simp [headerNames], rfl⟩

theorem RowsAgree.word (h : RowsAgree b b') {name : PageFieldName}
    (hname : name.isBodyWord = true) : fieldWord b name = fieldWord b' name := by
  obtain ⟨hbody, hsize⟩ := isBodyWord_spec hname
  have hrow := h name hbody
  rw [hsize] at hrow
  rw [fieldWord, fieldWord, wordAt, wordAt, hrow]

/-- The node name is read from its row, up to the row's end. -/
theorem RowsAgree.name (h : RowsAgree b b') {len : ℕ} (hlen : len ≤ pageNodeNameBytes) :
    slice b (pageOffset .nodeName) len = slice b' (pageOffset .nodeName) len := by
  have htake {k : ℕ} (p : Image k) : slice p (pageOffset .nodeName) len =
      (slice p (pageOffset .nodeName) pageNodeNameBytes).take len := by
    obtain ⟨rest, hrest⟩ := Nat.exists_eq_add_of_le hlen
    rw [hrest, slice_add, List.take_left' (slice_length _ _ _)]
  rw [htake, htake]
  exact congrArg _ (h .nodeName (by decide))

theorem RowsAgree.body (h : RowsAgree b b') : decodeBody b = decodeBody b' := by
  have hword {name : PageFieldName} (hname : name.isBodyWord = true) :
      fieldWord b name = fieldWord b' name := h.word hname
  have hint {name : PageFieldName} (hname : name.isBodyWord = true) :
      fieldI64 b name = fieldI64 b' name := by
    rw [fieldI64, fieldI64, hword hname]
  have hopt {name : PageFieldName} (hname : name.isBodyWord = true) :
      fieldOpt b name = fieldOpt b' name := by
    rw [fieldOpt, fieldOpt, hint hname]
  have hcode {V : Type} {name : PageFieldName} (hname : name.isBodyWord = true)
      (table : List (Wire V)) (unknown : Wire V) :
      fieldCode b name table unknown = fieldCode b' name table unknown := by
    rw [fieldCode, fieldCode, hword hname]
  have hbad {V : Type} {name : PageFieldName} (hname : name.isBodyWord = true)
      (table : List (Wire V)) : badCode b name table = badCode b' name table := by
    rw [badCode, badCode, hword hname]
  have hsignals : signalSlots b = signalSlots b' := by
    simp (disch := rfl) only [signalSlots, hword]
  have hcounters : counterSlots b = counterSlots b' := by
    simp (disch := rfl) only [counterSlots, hword]
  have hcodes : badCodes b = badCodes b' := by
    simp (disch := rfl) only [badCodes, hsignals, hcounters, hbad]
  have hsignal (i : Fin maxPageSignals) : decodeSignal b i = decodeSignal b' i := by
    simp (disch := rfl) only [decodeSignal, hopt, hcode]
  have hcounter (i : Fin maxPageCounters) : decodeCounter b i = decodeCounter b' i := by
    simp (disch := rfl) only [decodeCounter, hint, hcode]
  have hcapacity : decodeCapacity b = decodeCapacity b' := by
    simp (disch := rfl) only [decodeCapacity, hopt]
  have hdarwin : decodeDarwin b = decodeDarwin b' := by
    simp (disch := rfl) only [decodeDarwin, hopt]
  have hlinux : decodeLinux b = decodeLinux b' := by
    simp (disch := rfl) only [decodeLinux, decodeResource, decodeLine, hopt]
  have hplatform : decodePlatform b = decodePlatform b' := hcode rfl _ _
  have hlen : fieldWord b .nodeNameLen = fieldWord b' .nodeNameLen := hword rfl
  have hgpu : fieldOpt b .gpuPresent = fieldOpt b' .gpuPresent := hopt rfl
  unfold decodeBody
  rw [hlen, hgpu, hcodes]
  dsimp only
  split_ifs with hlong
  · rfl
  have hname : slice b (pageOffset .nodeName) (fieldWord b' .nodeNameLen).toNat =
      slice b' (pageOffset .nodeName) (fieldWord b' .nodeNameLen).toNat := by
    have hle : maxPageNodeNameBytes ≤ pageNodeNameBytes := by decide
    exact h.name (by omega)
  have hfields : decodeFields b = decodeFields b' := by
    simp (disch := rfl) only [decodeFields, hint, hword, hopt, hcode, hname, hplatform, hcapacity,
      hdarwin, hlinux, hsignals, hcounters, funext hsignal, funext hcounter]
  rw [hfields]

/-- Two pages that pass the header checks and agree on the body decode alike. -/
theorem decodePage_congr (hb : HeaderPasses b) (hb' : HeaderPasses b') (h : RowsAgree b b') :
    decodePage b = decodePage b' := by
  rw [decodePage_of_header hb, decodePage_of_header hb', h.body]

end Reader

theorem headerPasses_pageOf (s : PageSnapshot) : HeaderPasses (pageOf s) := by
  have hmagic : slice (pageOf s) (pageOffset .magic) pageMagic.length = pageMagic :=
    slice_pageOf s .magic
  have hmajor : uintAt (pageOf s) (pageOffset .abiMajor) 2 = pageABIMajor :=
    uintAt_pageOf rfl (by decide)
  have hheader : uintAt (pageOf s) (pageOffset .headerSize) 4 = pageHeaderSize :=
    uintAt_pageOf rfl (by decide)
  have hbody : uintAt (pageOf s) (pageOffset .bodySize) 4 = pageBodySize :=
    uintAt_pageOf rfl (by rw [pageBodySize, pageBodyEnd_eq]; decide)
  have hseq := fieldWord_pageOf s (n := .seq) rfl
  rw [show pageOffset .magic = 0 by decide +kernel] at hmagic
  rw [fieldWord, show pageOffset .seq = pageSeqOffset by decide +kernel] at hseq
  refine ⟨hmagic, hmajor, hheader, hbody.ge, ?_, ?_⟩
  · rw [hbody, pageBodySize, pageBodyEnd_eq]
    decide
  · rw [hseq]
    rfl

/-- The table of this release. -/
def pageTable : List TableField := pageFieldSpecs.map PageField.toTable

/-- The row of a name in the placed table. -/
def tableRow (name : PageFieldName) : TableField :=
  PageField.toTable { pageFieldSpec name with offset := pageOffset name }

theorem buildTable_pageTable :
    buildTable pageTable = (pageLayout.map PageField.toTable, pageBodyEnd) := by
  rw [buildTable, pageTable, keeps_toTable.placeFrom_map]
  unfold pageLayout pageBodyEnd
  rfl

theorem tableRow_mem (name : PageFieldName) : tableRow name ∈ (buildTable pageTable).1 := by
  rw [buildTable_pageTable]
  exact List.mem_map_of_mem (pageLayout_mem name)

theorem tableRow_abiMinor (name : PageFieldName) :
    (tableRow name).name = "abiMinor" ↔ name = .abiMinor := by
  have hall : all.all (fun n => decide (n.text = "abiMinor" ↔ n = .abiMinor)) = true := by
    decide +kernel
  have hname : (tableRow name).name = name.text := congrArg text (pageFieldSpec_name name)
  rw [hname]
  exact of_decide_eq_true (List.all_eq_true.mp hall name name.mem_all)

theorem tableRow_encode {name : PageFieldName} (h : name ≠ .bodySize) {stop : ℕ}
    {s : PageSnapshot} : (tableRow name).encode stop s = (pageFieldSpec name).encode s := by
  have hname : (tableRow name).name = name.text := congrArg text (pageFieldSpec_name name)
  rw [TableField.encode_congr_stop (by rw [hname]; exact mt name.text_special.2.2.mp h) stop
    pageBodyEnd]
  exact PageField.toTable_encode { pageFieldSpec name with offset := pageOffset name } s

theorem pageTable_widths : ∀ f ∈ pageTable, f.width ≤ f.size := by
  have hall : pageTable.all (fun f => decide (f.width ≤ f.size)) = true := by decide +kernel
  exact fun f hf => of_decide_eq_true (List.all_eq_true.mp hall f hf)

section Minors

variable {T U : List TableField} {m : Option PageGetter → Option PageGetter} {s : PageSnapshot}
  {page : Page}

/-- A row of `T` on the page of a minor that has the rows of `T`, then those of `U`. -/
theorem slice_of_minor (hw : ∀ f ∈ T ++ U, f.width ≤ f.size)
    (hend : (buildTable (T ++ U)).2 ≤ pageSize)
    (h : encodeTable (T.map (TableField.bumped m) ++ U) s = .ok page) {f : TableField}
    (hf : f ∈ (buildTable T).1) (hminor : f.name ≠ "abiMinor") :
    slice page f.offset f.size = f.encode (buildTable (T ++ U)).2 s ++
      List.replicate (f.size - (f.encode (buildTable (T ++ U)).2 s).length) 0 := by
  have hbuild : buildTable (T.map (TableField.bumped m) ++ U) =
      ((buildTable T).1.map (TableField.bumped m) ++ (placeFrom (buildTable T).2 U).1,
        (buildTable (T ++ U)).2) := by
    rw [buildTable, placeFrom_append, (TableField.keeps_bumped m).placeFrom_map, buildTable,
      buildTable, placeFrom_append]
  have hwidths : ∀ g ∈ T.map (TableField.bumped m) ++ U, g.width ≤ g.size := by
    intro g hg
    rcases List.mem_append.mp hg with hg | hg
    · obtain ⟨k, hk, rfl⟩ := List.mem_map.mp hg
      exact hw k (List.mem_append_left U hk)
    · exact hw g (List.mem_append_right T hg)
  have hrow : f ∈ (buildTable (T.map (TableField.bumped m) ++ U)).1 := by
    rw [hbuild]
    exact List.mem_append_left _ (List.mem_map.mpr ⟨f, hf, TableField.bumped_of_ne hminor⟩)
  have hslice := slice_encodeTable hwidths (by rw [hbuild]; exact hend) h hrow
  rwa [hbuild] at hslice

theorem row_of_minor (hw : ∀ f ∈ T ++ U, f.width ≤ f.size)
    (hend : (buildTable (T ++ U)).2 ≤ pageSize)
    (h : encodeTable (T.map (TableField.bumped m) ++ U) s = .ok page) {name : PageFieldName}
    (hrow : tableRow name ∈ (buildTable T).1) (hminor : name ≠ .abiMinor)
    (hbody : name ≠ .bodySize) :
    slice page (pageOffset name) (pageFieldSpec name).size = (pageFieldSpec name).encode s ++
      List.replicate ((pageFieldSpec name).size - ((pageFieldSpec name).encode s).length) 0 := by
  have hslice := slice_of_minor hw hend h hrow (mt (tableRow_abiMinor name).mp hminor)
  rwa [tableRow_encode hbody] at hslice

/-- The header of such a page, when `T` has the header rows. -/
theorem header_of_minor (hw : ∀ f ∈ T ++ U, f.width ≤ f.size)
    (hend : (buildTable (T ++ U)).2 ≤ pageSize)
    (h : encodeTable (T.map (TableField.bumped m) ++ U) s = .ok page)
    (hrows : ∀ name ∈ headerNames, tableRow name ∈ (buildTable T).1) :
    slice page 0 pageMagic.length = pageMagic ∧
    uintAt page (pageOffset .abiMajor) 2 = pageABIMajor ∧
    uintAt page (pageOffset .headerSize) 4 = pageHeaderSize ∧
    uintAt page (pageOffset .bodySize) 4 =
      ((((buildTable (T ++ U)).2 : ℤ) - pageHeaderSize) % 2 ^ 32).toNat ∧
    wordAt page pageSeqOffset = 0 := by
  have hrow (name : PageFieldName) (hname : name ∈ headerNames) (hminor : name ≠ .abiMinor)
      (hbody : name ≠ .bodySize) := row_of_minor hw hend h (hrows name hname) hminor hbody
  have hmagic : slice page (pageOffset .magic) pageMagic.length = pageMagic ++ [] :=
    hrow .magic (by decide) (by decide) (by decide)
  have hmajor : slice page (pageOffset .abiMajor) 2 = leBytes 2 pageABIMajor ++ [] :=
    hrow .abiMajor (by decide) (by decide) (by decide)
  have hheader : slice page (pageOffset .headerSize) 4 = leBytes 4 pageHeaderSize ++ [] :=
    hrow .headerSize (by decide) (by decide) (by decide)
  have hseq : slice page (pageOffset .seq) 8 = leBytes 8 0 ++ [] :=
    hrow .seq (by decide) (by decide) (by decide)
  have hsize : slice page (pageOffset .bodySize) 4 =
      leBytes 4 ((((buildTable (T ++ U)).2 : ℤ) - pageHeaderSize) % 2 ^ 32).toNat ++ [] :=
    slice_of_minor hw hend h (hrows .bodySize (by decide))
      (mt (tableRow_abiMinor .bodySize).mp (by decide))
  rw [List.append_nil] at hmagic hmajor hheader hseq hsize
  rw [show pageOffset .magic = 0 by decide +kernel] at hmagic
  rw [show pageOffset .seq = pageSeqOffset by decide +kernel] at hseq
  refine ⟨hmagic, ?_, ?_, ?_, ?_⟩
  · rw [uintAt, hmajor, leNat_leBytes]
    rfl
  · rw [uintAt, hheader, leNat_leBytes]
    rfl
  · have hlt : ((((buildTable (T ++ U)).2 : ℤ) - pageHeaderSize) % 2 ^ 32).toNat < 256 ^ 4 := by
      omega
    rw [uintAt, hsize, leNat_leBytes, Nat.mod_eq_of_lt hlt]
  · rw [wordAt, hseq, leNat_leBytes]
    rfl

theorem carries_of_encodeTable {specs : List TableField} (h : encodeTable specs s = .ok page) :
    checkPageSnapshot s = .ok () ∧ ∀ f ∈ (buildTable specs).1, f.carries s = true := by
  unfold encodeTable at h
  obtain ⟨hcheck, h⟩ := bind_ok.mp h
  dsimp only at h
  split at h
  · exact absurd h (by simp)
  · rename_i hfind
    refine ⟨hcheck, fun f hf => ?_⟩
    have hnot := List.find?_eq_none.mp hfind f hf
    rwa [Bool.not_eq_true', Bool.not_eq_false] at hnot

/-- A snapshot a later minor accepts is one this release accepts. -/
theorem carried_of_later (h : encodeTable (pageTable.map (TableField.bumped m) ++ U) s = .ok page) :
    Carried s := by
  obtain ⟨hcheck, hcarries⟩ := carries_of_encodeTable h
  have hfields (name : PageFieldName) : (pageFieldSpec name).carries s = true := by
    by_cases hminor : name = .abiMinor
    · rw [hminor]
      rfl
    have hrow : tableRow name ∈ (buildTable (pageTable.map (TableField.bumped m) ++ U)).1 := by
      rw [buildTable, placeFrom_append, (TableField.keeps_bumped m).placeFrom_map]
      exact List.mem_append_left _ (List.mem_map.mpr ⟨_, tableRow_mem name,
        TableField.bumped_of_ne (mt (tableRow_abiMinor name).mp hminor)⟩)
    have hsame := PageField.toTable_carries { pageFieldSpec name with offset := pageOffset name } s
    exact hsame.symm.trans (hcarries _ hrow)
  have hpage : encodePage s = .ok (pageOf s) :=
    encodePage_of_checks hcheck (List.all_eq_true.mpr fun name _ => hfields name)
  exact (encodePage_ok.mp hpage).1

theorem rowsAgree_of_later (hw : ∀ f ∈ pageTable ++ U, f.width ≤ f.size)
    (hend : (buildTable (pageTable ++ U)).2 ≤ pageSize)
    (h : encodeTable (pageTable.map (TableField.bumped m) ++ U) s = .ok page) :
    RowsAgree page (pageOf s) := by
  intro name hname
  have hminor : name ≠ .abiMinor := by
    rintro rfl
    exact hname (by decide)
  have hbody : name ≠ .bodySize := by
    rintro rfl
    exact hname (by decide)
  have hown : encodeTable pageTable s = .ok (pageOf s) :=
    (encodeTable_pageFieldSpecs s).trans (encodePage_ok.mpr ⟨carried_of_later h, rfl⟩)
  have hstop : (buildTable pageTable).2 ≤ pageSize := by
    rw [buildTable_pageTable, pageBodyEnd_eq]
    decide
  have hrow := slice_encodeTable pageTable_widths hstop hown (tableRow_mem name)
  rw [tableRow_encode hbody] at hrow
  exact (row_of_minor hw hend h (tableRow_mem name) hminor hbody).trans hrow.symm

end Minors

theorem buildTable_le (T U : List TableField) : (buildTable T).2 ≤ (buildTable (T ++ U)).2 := by
  rw [buildTable, buildTable, placeFrom_append]
  exact (placeFrom_spec _ U).le_stop

/-- A row of positive size makes the table longer. -/
theorem buildTable_lt {T U : List TableField} (hU : U ≠ []) (hsize : ∀ f ∈ U, 0 < f.size) :
    (buildTable T).2 < (buildTable (T ++ U)).2 := by
  rw [buildTable, buildTable, placeFrom_append]
  exact lt_placeFrom hU hsize

/-- The rows of the header, and the first row of the body, stand first in the table. -/
theorem tableRow_mem_take {name : PageFieldName} (hname : name ∈ .generation :: headerNames)
    {k : ℕ} (hk : 8 ≤ k) : tableRow name ∈ (buildTable (pageTable.take k)).1 := by
  have hall : (.generation :: headerNames).all (fun name => (pageLayout.take 8).any fun f =>
      decide (f.name = name) && decide (f.offset = pageOffset name)) = true := by
    decide +kernel
  obtain ⟨f, hf, hrow⟩ := List.any_eq_true.mp (List.all_eq_true.mp hall name hname)
  rw [Bool.and_eq_true, decide_eq_true_eq, decide_eq_true_eq] at hrow
  have hrowed := pageLayout_row (List.mem_of_mem_take hf)
  rw [hrow.1, hrow.2] at hrowed
  have hmem : tableRow name ∈ (buildTable pageTable).1.take 8 := by
    rw [buildTable_pageTable, ← List.map_take, tableRow, ← hrowed]
    exact List.mem_map_of_mem hf
  have hlen : 8 ≤ (buildTable (pageTable.take k)).1.length := by
    have hrows : 8 ≤ pageTable.length := by decide +kernel
    rw [buildTable, placeFrom_length, List.length_take]
    omega
  rw [← List.take_append_drop k pageTable, buildTable, placeFrom_append] at hmem
  dsimp only at hmem
  rw [← buildTable, List.take_append_of_le_length hlen] at hmem
  exact List.mem_of_mem_take hmem

/-- Reading across minors. A page of any later minor, whatever rows it appends, decodes to the
snapshot it was encoded from; a page of an earlier one, which ends before some row this
release knows, is refused as truncated. -/
theorem minors_decode (m : Option PageGetter → Option PageGetter) (s : PageSnapshot)
    (page : Page) :
    (∀ U, (∀ f ∈ U, f.width ≤ f.size) → (buildTable (pageTable ++ U)).2 ≤ pageSize →
      encodeTable (pageTable.map (TableField.bumped m) ++ U) s = .ok page → s.TimesCarried →
      decodePage page = .ok s.normalise) ∧
    ∀ k, 8 ≤ k → k < pageTable.length →
      encodeTable ((pageTable.take k).map (TableField.bumped m)) s = .ok page →
      ∃ detail, decodePage page = .error ⟨.truncated, detail⟩ := by
  have hown : pageHeaderSize ≤ pageBodyEnd ∧ pageBodyEnd ≤ pageSize ∧ pageSize < 2 ^ 32 := by
    rw [pageBodyEnd_eq]
    decide
  have hdefsize : pageBodySize = pageBodyEnd - pageHeaderSize := rfl
  constructor
  · intro U hwidths hend h htimes
    have hw : ∀ f ∈ pageTable ++ U, f.width ≤ f.size := by
      intro f hf
      rcases List.mem_append.mp hf with hf | hf
      · exact pageTable_widths f hf
      · exact hwidths f hf
    have hgrown := buildTable_le pageTable U
    rw [buildTable_pageTable] at hgrown
    obtain ⟨hmagic, hmajor, hheader, hsize, hseq⟩ :=
      header_of_minor hw hend h fun name _ => tableRow_mem name
    have hpasses : HeaderPasses page := by
      refine ⟨hmagic, hmajor, hheader, by omega, by omega, ?_⟩
      rw [hseq]
      rfl
    rw [decodePage_congr hpasses (headerPasses_pageOf s) (rowsAgree_of_later hw hend h)]
    exact decodePage_pageOf (carried_of_later h) htimes
  · intro k hlo hhi h
    have hw : ∀ f ∈ pageTable.take k ++ [], f.width ≤ f.size := by
      intro f hf
      rw [List.append_nil] at hf
      exact pageTable_widths f (List.mem_of_mem_take hf)
    have hpositive : pageTable.all (fun f => decide (0 < f.size)) = true := by decide +kernel
    have hshorter : (buildTable (pageTable.take k)).2 < pageBodyEnd := by
      have hlt := buildTable_lt (T := pageTable.take k) (U := pageTable.drop k)
        (List.drop_eq_nil_iff.not.mpr (not_le.mpr hhi))
        fun f hf => of_decide_eq_true (List.all_eq_true.mp hpositive f (List.mem_of_mem_drop hf))
      rwa [List.take_append_drop, buildTable_pageTable] at hlt
    have hbody : pageHeaderSize ≤ (buildTable (pageTable.take k)).2 := by
      have hmem : tableRow .generation ∈ (buildTable (pageTable.take k)).1 :=
        tableRow_mem_take (by decide) hlo
      have hupper : (tableRow .generation).offset + (tableRow .generation).size ≤
          (buildTable (pageTable.take k)).2 := (placeFrom_spec 0 (pageTable.take k)).upper _ hmem
      have hfirst : (tableRow .generation).offset = pageHeaderSize := by decide +kernel
      omega
    rw [← List.append_nil ((pageTable.take k).map _)] at h
    rw [← List.append_nil (pageTable.take k)] at hshorter hbody
    obtain ⟨hmagic, hmajor, hheader, hsize, -⟩ :=
      header_of_minor hw (by omega) h fun name hname =>
        tableRow_mem_take (List.mem_cons_of_mem _ hname) hlo
    unfold decodePage
    dsimp only
    rw [if_neg (by decide), if_neg (not_not.mpr hmagic), if_neg (not_not.mpr hmajor),
      if_neg (not_not.mpr hheader), if_pos (by omega)]
    exact ⟨_, rfl⟩

/-- A minor that appends a row is read, and minor 0, without the last four rows, is refused. -/
theorem minors_decode_npuCount :
    (∃ page, encodeTable (pageTable.map (TableField.bumped fun _ => some (constGet 2)) ++
        [npuCountRow]) bareSnapshot = .ok page ∧
      decodePage page = .ok bareSnapshot.normalise) ∧
    ∃ page detail, encodeTable ((pageTable.take (pageTable.length - 4)).map
        (TableField.bumped fun _ => some (constGet 0))) bareSnapshot = .ok page ∧
      decodePage page = .error ⟨.truncated, detail⟩ := by
  have hcheck : checkPageSnapshot bareSnapshot = .ok () := by decide
  have hlater := encodeTable_of_carries
    (pageTable.map (TableField.bumped fun _ => some (constGet 2)) ++ [npuCountRow]) hcheck
    (by decide +kernel)
  have hearlier := encodeTable_of_carries ((pageTable.take (pageTable.length - 4)).map
    (TableField.bumped fun _ => some (constGet 0))) hcheck (by decide +kernel)
  obtain ⟨detail, hrefused⟩ := (minors_decode _ _ _).2 _ (by decide +kernel) (by decide +kernel)
    hearlier
  refine ⟨⟨_, hlater, ?_⟩, _, detail, hearlier, hrefused⟩
  exact (minors_decode _ _ _).1 [npuCountRow] (by decide) (by decide +kernel) hlater
    ⟨by decide, by decide⟩

end K3smApis.Budget
