import K3smApis.PageEncoding

/-!
# Layout tables of any minor

`buildPageLayout` and `EncodePage` over an arbitrary table of rows. A later minor
appends rows, under names this release does not have, so a row here carries the
source's own string name. The table of this release is an instance.
-/
namespace K3smApis.Budget
open ByteImage RowLayout Check

/-- `pageField`: one row of a layout table. The getter is nil for the rows the encoder
writes itself. -/
structure TableField where
  name : String
  kind : PageKind
  size : ℕ
  align : ℕ := 0
  get : Option PageGetter := none
  offset : ℕ := 0

namespace TableField

/-- The alignment a row asks for, or the natural one of its kind. -/
def alignment (f : TableField) : ℕ := f.kind.alignment f.align

/-- The width `EncodePage` writes a getter's value with. -/
def kindWidth : PageKind → ℕ
  | .u16 => 2
  | .u32 => 4
  | _ => 8

/-- The bytes `EncodePage` writes for the row at most: the whole magic, a 4-byte
bodySize, the node name cut to its field, or the width of the row's kind. -/
def width (f : TableField) : ℕ :=
  if f.name = "magic" then pageMagic.length
  else if f.name = "nodeName" then f.size
  else if f.name = "bodySize" then 4
  else kindWidth f.kind

/-- Whether the row can carry the snapshot's value. A nil getter is never called for
the three rows the encoder writes itself, and panics for any other. -/
def carries (f : TableField) (s : PageSnapshot) : Bool :=
  if f.name = "magic" ∨ f.name = "nodeName" ∨ f.name = "bodySize" then true
  else match f.get with
    | some get => (get s).2
    | none => false

/-- The bytes the encoder writes at the row's offset, for a table that ends at `stop`. -/
def encode (stop : ℕ) (f : TableField) (s : PageSnapshot) : List UInt8 :=
  if f.name = "magic" then pageMagic
  else if f.name = "nodeName" then s.nodeName.take f.size
  else if f.name = "bodySize" then
    leBytes 4 (((stop : ℤ) - pageHeaderSize) % 2 ^ 32).toNat
  else match f.get with
    | some get => leBytes (kindWidth f.kind) (get s).1.toNat
    | none => []

theorem encode_length_le (stop : ℕ) (f : TableField) (s : PageSnapshot) :
    (f.encode stop s).length ≤ f.width := by
  unfold encode width
  split_ifs
  · exact le_rfl
  · simp
  · simp
  · cases f.get <;> simp

/-- Only bodySize depends on where the table ends. -/
theorem encode_congr_stop {f : TableField} (h : f.name ≠ "bodySize") (stop stop' : ℕ)
    (s : PageSnapshot) : f.encode stop s = f.encode stop' s := by
  simp only [encode, if_neg h]

end TableField

instance : Row TableField where
  size := TableField.size
  alignment := TableField.alignment
  offset := TableField.offset
  moved f off := { f with offset := off }
  alignment_pos f := f.kind.alignment_pos f.align
  size_moved _ _ := rfl
  alignment_moved _ _ := rfl
  offset_moved _ _ := rfl

/-- `buildPageLayout` over a table. -/
def buildTable (specs : List TableField) : List TableField × ℕ := placeFrom 0 specs

/-- `EncodePage` over a table. -/
def encodeTable (specs : List TableField) (s : PageSnapshot) : Except PageError Page := do
  checkPageSnapshot s
  let layout := buildTable specs
  match layout.1.find? (fun f => !f.carries s) with
  | some f => .error ⟨[.invalidPageSnapshot],
      [.s f.name, .s " cannot carry the snapshot's value"]⟩
  | none => .ok (putAll zeroImage (layout.1.map (fun f => ⟨f.offset, f.encode layout.2 s⟩)))

/-- A placed row differs from its specification in the offset only. -/
theorem width_le_of_placed {specs : List TableField} (hw : ∀ f ∈ specs, f.width ≤ f.size) :
    ∀ g ∈ (buildTable specs).1, g.width ≤ g.size := by
  intro g hg
  obtain ⟨f, hf, hrow⟩ := (placeFrom_spec 0 specs).exists_spec hg
  rw [hrow]
  exact hw f hf

/-- The writes of the encoder over a placed table. -/
def tableWrites (layout : List TableField × ℕ) (s : PageSnapshot) : List Write :=
  layout.1.map (fun f => ⟨f.offset, f.encode layout.2 s⟩)

theorem encodeTable_ok {specs : List TableField} {s : PageSnapshot} {page : Page}
    (h : encodeTable specs s = .ok page) :
    page = putAll zeroImage (tableWrites (buildTable specs) s) := by
  unfold encodeTable at h
  obtain ⟨_, h⟩ := bind_ok.mp h
  dsimp only at h
  split at h
  · exact absurd h (by simp)
  · exact (Except.ok.inj h).symm

/-- Acceptance as two evaluations, for a given snapshot. -/
theorem encodeTable_of_carries (specs : List TableField) {s : PageSnapshot}
    (hc : checkPageSnapshot s = .ok ())
    (hf : (buildTable specs).1.all (fun f => f.carries s) = true) :
    encodeTable specs s = .ok (putAll zeroImage (tableWrites (buildTable specs) s)) := by
  have hfind : (buildTable specs).1.find? (fun f => !f.carries s) = none := by
    rw [List.find?_eq_none]
    intro f hmem
    have hcar := List.all_eq_true.mp hf f hmem
    rw [hcar]
    decide
  rw [encodeTable, bind_ok]
  refine ⟨hc, ?_⟩
  dsimp only
  rw [hfind]
  rfl

/-- Every row of a table reads back what the encoder wrote for it, then zero bytes:
no other row's write touches its range. -/
theorem slice_encodeTable {specs : List TableField} {s : PageSnapshot} {page : Page}
    (hw : ∀ f ∈ specs, f.width ≤ f.size) (hend : (buildTable specs).2 ≤ pageSize)
    (h : encodeTable specs s = .ok page) {f : TableField} (hf : f ∈ (buildTable specs).1) :
    slice page f.offset f.size =
      f.encode (buildTable specs).2 s ++
        List.replicate (f.size - (f.encode (buildTable specs).2 s).length) 0 := by
  have hlen (g : TableField) (hg : g ∈ (buildTable specs).1) :
      (g.encode (buildTable specs).2 s).length ≤ g.size :=
    (g.encode_length_le _ s).trans (width_le_of_placed hw g hg)
  rw [encodeTable_ok h]
  exact (placeFrom_spec 0 specs).slice_row hend hlen hf

/-- A row of this release's table, under its string name. -/
def PageField.toTable (f : PageField) : TableField where
  name := f.name.text
  kind := f.kind
  size := f.size
  align := f.align
  get := match f.name with
    | .magic | .nodeName | .bodySize => none
    | _ => some f.get
  offset := f.offset

theorem keeps_toTable : Keeps PageField.toTable := ⟨fun _ => rfl, fun _ => rfl, fun _ _ => rfl⟩

/-- Which of the names the encoder treats apart a name is. -/
theorem PageFieldName.text_special (n : PageFieldName) :
    (n.text = "magic" ↔ n = .magic) ∧ (n.text = "nodeName" ↔ n = .nodeName) ∧
      (n.text = "bodySize" ↔ n = .bodySize) := by
  have hall : ∀ n ∈ PageFieldName.all,
      (n.text = "magic" ↔ n = .magic) ∧ (n.text = "nodeName" ↔ n = .nodeName) ∧
        (n.text = "bodySize" ↔ n = .bodySize) := by decide +kernel
  exact hall n n.mem_all

theorem PageField.toTable_carries (f : PageField) (s : PageSnapshot) :
    f.toTable.carries s = f.carries s := by
  obtain ⟨hmagic, hname, hbody⟩ := f.name.text_special
  simp only [TableField.carries, PageField.toTable, PageField.carries, hmagic, hname, hbody]
  cases f.name <;> simp

theorem PageField.toTable_encode (f : PageField) (s : PageSnapshot) :
    f.toTable.encode pageBodyEnd s = f.encode s := by
  obtain ⟨hmagic, hname, hbody⟩ := f.name.text_special
  have hsize : (((pageBodyEnd : ℕ) : ℤ) - pageHeaderSize) % 2 ^ 32 = (pageBodySize : ℕ) := by
    rw [pageBodySize, pageBodyEnd_eq]
    decide
  simp only [TableField.encode, PageField.toTable, PageField.encode, hmagic, hname, hbody,
    hsize, Int.toNat_natCast]
  cases f.kind <;> cases f.name <;> simp [TableField.kindWidth]

/-- `EncodePage` over this release's table is `encodePage`. -/
theorem encodeTable_pageFieldSpecs (s : PageSnapshot) :
    encodeTable (pageFieldSpecs.map PageField.toTable) s = encodePage s := by
  have hbuild : buildTable (pageFieldSpecs.map PageField.toTable) =
      (pageLayout.map PageField.toTable, pageBodyEnd) := by
    rw [buildTable, keeps_toTable.placeFrom_map]
    unfold pageLayout pageBodyEnd
    rfl
  have hfind : (pageLayout.map PageField.toTable).find? (fun f => !f.carries s) =
      (pageLayout.find? (fun f => !f.carries s)).map PageField.toTable := by
    rw [List.find?_map]
    congr 2
    funext f
    simp only [Function.comp_apply, PageField.toTable_carries]
  have hpage : ((pageLayout.map PageField.toTable).map
      (fun f => (⟨f.offset, f.encode pageBodyEnd s⟩ : Write))) =
      pageLayout.map (fun f => ⟨f.offset, f.encode s⟩) := by
    rw [List.map_map]
    apply List.map_congr_left
    intro f _
    simp only [Function.comp_apply, PageField.toTable_encode]
    rfl
  rw [encodeTable, encodePage, hbuild]
  dsimp only
  rw [hfind, hpage, ← pageOf]
  cases pageLayout.find? (fun f => !f.carries s) <;> rfl

/-- A row as a later minor has it: only the getter of abiMinor is another one. -/
def TableField.bumped (m : Option PageGetter → Option PageGetter) (f : TableField) : TableField :=
  { f with get := if f.name = "abiMinor" then m f.get else f.get }

theorem TableField.bumped_of_ne {m : Option PageGetter → Option PageGetter} {f : TableField}
    (h : f.name ≠ "abiMinor") : f.bumped m = f := by
  simp only [TableField.bumped, if_neg h]

theorem TableField.keeps_bumped (m : Option PageGetter → Option PageGetter) :
    Keeps (TableField.bumped m) := ⟨fun _ => rfl, fun _ => rfl, fun _ _ => rfl⟩

/-- Appending rows to a table. The rows of every table are placed in strictly increasing,
aligned ranges that do not overlap; the rows appended move none of them; and on any
snapshot both tables accept, every old row but abiMinor and bodySize holds the same
bytes on the two pages, whatever the new minor's number is. -/
theorem append_disturbs_no_row (T : List TableField) (hsize : ∀ f ∈ T, 0 < f.size) :
    ((buildTable T).1.Pairwise (fun f g => f.offset < g.offset ∧ f.offset + f.size ≤ g.offset) ∧
      (∀ f ∈ (buildTable T).1, f.alignment ∣ f.offset)) ∧
    ∀ U : List TableField,
      (buildTable (T ++ U)).1.take T.length = (buildTable T).1 ∧
      ∀ (m : Option PageGetter → Option PageGetter) (s : PageSnapshot) (page page' : Page),
        (∀ f ∈ T ++ U, f.width ≤ f.size) → (buildTable (T ++ U)).2 ≤ pageSize →
        encodeTable T s = .ok page →
        encodeTable (T.map (TableField.bumped m) ++ U) s = .ok page' →
        ∀ f ∈ (buildTable T).1, f.name ≠ "abiMinor" → f.name ≠ "bodySize" →
          slice page f.offset f.size = slice page' f.offset f.size := by
  have hplaced := placeFrom_spec 0 T
  refine ⟨⟨?_, hplaced.aligned⟩, ?_⟩
  · apply hplaced.ascending.imp_of_mem
    intro f g hf _ hfg
    obtain ⟨f', hf', hrow⟩ := hplaced.exists_spec hf
    have hpos : 0 < f.size := by
      rw [hrow]
      exact hsize f' hf'
    have hstop : f.offset + f.size ≤ g.offset := hfg
    exact ⟨by omega, hstop⟩
  intro U
  constructor
  · have hlen : (placeFrom 0 T).1.length = T.length := placeFrom_length 0 T
    rw [buildTable, buildTable, placeFrom_append, ← hlen, List.take_left']
    rfl
  intro m s page page' hwidth hend hpage hpage' f hf hminor hbody
  -- the new table ends where the plain concatenation does
  have hnew : buildTable (T.map (TableField.bumped m) ++ U) =
      ((buildTable T).1.map (TableField.bumped m) ++ (placeFrom (buildTable T).2 U).1,
        (buildTable (T ++ U)).2) := by
    rw [buildTable, placeFrom_append, (TableField.keeps_bumped m).placeFrom_map, buildTable,
      buildTable, placeFrom_append]
  have hstop : (buildTable T).2 ≤ (buildTable (T ++ U)).2 := by
    rw [buildTable, buildTable, placeFrom_append]
    exact (placeFrom_spec _ U).le_stop
  have hwidthT : ∀ g ∈ T, g.width ≤ g.size := fun g hg => hwidth g (List.mem_append_left U hg)
  have hwidthN : ∀ g ∈ T.map (TableField.bumped m) ++ U, g.width ≤ g.size := by
    intro g hg
    rcases List.mem_append.mp hg with hg | hg
    · obtain ⟨k, hk, rfl⟩ := List.mem_map.mp hg
      exact hwidthT k hk
    · exact hwidth g (List.mem_append_right T hg)
  have hfN : f ∈ (buildTable (T.map (TableField.bumped m) ++ U)).1 := by
    rw [hnew]
    apply List.mem_append_left
    exact List.mem_map.mpr ⟨f, hf, TableField.bumped_of_ne hminor⟩
  have hold := slice_encodeTable hwidthT (hstop.trans hend) hpage hf
  have hnewer := slice_encodeTable hwidthN (by rw [hnew]; exact hend) hpage' hfN
  rw [hold, hnewer, TableField.encode_congr_stop hbody]

/-- A row a later minor might append. -/
def npuCountRow : TableField where
  name := "capacity.npuCount"
  kind := .i64
  size := 8
  get := some (fun _ => (pageAbsentWord, true))

/-- A linux snapshot with nothing sampled. -/
def bareSnapshot : PageSnapshot where
  writerPeriodSeconds := 1
  nodeName := lit "n"
  observedAt := .ofUnix 1
  platform := word .linux
  level := word .ok
  linux := some {}

theorem append_disturbs_no_row_npuCount :
    ∃ page page' : Page,
      encodeTable (pageFieldSpecs.map PageField.toTable) bareSnapshot = .ok page ∧
      encodeTable ((pageFieldSpecs.map PageField.toTable).map
        (TableField.bumped fun _ => some (constGet 2)) ++ [npuCountRow]) bareSnapshot =
          .ok page' ∧
      ∀ f ∈ (buildTable (pageFieldSpecs.map PageField.toTable)).1,
        f.name ≠ "abiMinor" → f.name ≠ "bodySize" →
          slice page f.offset f.size = slice page' f.offset f.size := by
  have hold := encodeTable_of_carries (pageFieldSpecs.map PageField.toTable)
    (s := bareSnapshot) (by decide) (by decide +kernel)
  have hnew := encodeTable_of_carries ((pageFieldSpecs.map PageField.toTable).map
      (TableField.bumped fun _ => some (constGet 2)) ++ [npuCountRow])
    (s := bareSnapshot) (by decide) (by decide +kernel)
  exact ⟨_, _, hold, hnew, ((append_disturbs_no_row _ (by decide +kernel)).2 [npuCountRow]).2
    _ _ _ _ (by decide +kernel) (by decide +kernel) hold hnew⟩

end K3smApis.Budget
