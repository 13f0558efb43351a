import K3smApis.ByteImage

/-!
# Rows laid out one behind the other

A table of rows is laid out from the front: each row starts at the first multiple of its
alignment that the rows before it leave free. The rows keep their order and their ranges do
not overlap, rows appended to a table move none of those before them, and what is written to
the range of a row is read back from it.
-/
namespace K3smApis.RowLayout
open ByteImage

/-- `off` rounded up to a multiple of `a`. -/
def alignUp (off a : ℕ) : ℕ := (off + a - 1) / a * a

theorem le_alignUp (off a : ℕ) (ha : 0 < a) : off ≤ alignUp off a := by
  have hd := Nat.div_add_mod (off + a - 1) a
  have hm := Nat.mod_lt (off + a - 1) ha
  rw [alignUp, Nat.mul_comm]
  omega

theorem dvd_alignUp (off a : ℕ) : a ∣ alignUp off a := Nat.dvd_mul_left _ _

/-- Rows that have a size and an alignment, and an offset that a layout sets. -/
class Row (F : Type) where
  size : F → ℕ
  alignment : F → ℕ
  offset : F → ℕ
  moved : F → ℕ → F
  alignment_pos (f : F) : 0 < alignment f
  size_moved (f : F) (off : ℕ) : size (moved f off) = size f
  alignment_moved (f : F) (off : ℕ) : alignment (moved f off) = alignment f
  offset_moved (f : F) (off : ℕ) : offset (moved f off) = off

open Row

section

variable {F G : Type} [Row F] [Row G]

/-- The rows from offset `off` on, and where the last one ends. -/
def placeFrom : ℕ → List F → List F × ℕ
  | off, [] => ([], off)
  | off, f :: fs =>
    let start := alignUp off (alignment f)
    let rest := placeFrom (start + size f) fs
    (moved f start :: rest.1, rest.2)

/-- What placing a list of rows from `off` on establishes: the rows keep their order, and
their ranges are aligned and ascend from `off` to the end returned. -/
structure Placed (off : ℕ) (fs placed : List F) (stop : ℕ) : Prop where
  rows : List.Forall₂ (fun f g => g = moved f (offset g)) fs placed
  ascending : placed.Pairwise (fun f g => offset f + size f ≤ offset g)
  aligned : ∀ g ∈ placed, alignment g ∣ offset g
  lower : ∀ g ∈ placed, off ≤ offset g
  upper : ∀ g ∈ placed, offset g + size g ≤ stop
  le_stop : off ≤ stop

theorem placeFrom_spec (off : ℕ) (fs : List F) :
    Placed off fs (placeFrom off fs).1 (placeFrom off fs).2 := by
  induction fs generalizing off with
  | nil => exact ⟨.nil, .nil, by simp [placeFrom], by simp [placeFrom], by simp [placeFrom], le_rfl⟩
  | cons f fs ih =>
    have hstart := le_alignUp off (alignment f) (alignment_pos f)
    have hrest := ih (alignUp off (alignment f) + size f)
    have hle := hrest.le_stop
    simp only [placeFrom]
    refine ⟨.cons (by rw [offset_moved]) hrest.rows, ?_, ?_, ?_, ?_, by omega⟩
    · refine List.pairwise_cons.mpr ⟨fun g hg => ?_, hrest.ascending⟩
      rw [offset_moved, size_moved]
      exact hrest.lower g hg
    · refine List.forall_mem_cons.mpr ⟨?_, hrest.aligned⟩
      rw [offset_moved, alignment_moved]
      exact dvd_alignUp _ _
    · refine List.forall_mem_cons.mpr ⟨?_, fun g hg => ?_⟩
      · rwa [offset_moved]
      · have hlower := hrest.lower g hg
        omega
    · refine List.forall_mem_cons.mpr ⟨?_, hrest.upper⟩
      rwa [offset_moved, size_moved]

/-- A row of positive size makes a table longer. -/
theorem lt_placeFrom {off : ℕ} {fs : List F} (hne : fs ≠ []) (hsize : ∀ f ∈ fs, 0 < size f) :
    off < (placeFrom off fs).2 := by
  obtain ⟨f, fs, rfl⟩ := List.exists_cons_of_ne_nil hne
  have hstart := le_alignUp off (alignment f) (alignment_pos f)
  have hpos := hsize f List.mem_cons_self
  have hle := (placeFrom_spec (alignUp off (alignment f) + size f) fs).le_stop
  simp only [placeFrom]
  omega

/-- Placing more rows goes on from where the table ended. -/
theorem placeFrom_append (off : ℕ) (fs gs : List F) :
    placeFrom off (fs ++ gs) =
      ((placeFrom off fs).1 ++ (placeFrom (placeFrom off fs).2 gs).1,
        (placeFrom (placeFrom off fs).2 gs).2) := by
  induction fs generalizing off with
  | nil => rfl
  | cons f fs ih => simp only [List.cons_append, placeFrom, ih]

theorem placeFrom_length (off : ℕ) (fs : List F) : (placeFrom off fs).1.length = fs.length :=
  (placeFrom_spec off fs).rows.length_eq.symm

/-- A change of rows that their layout does not depend on. -/
structure Keeps (h : F → G) : Prop where
  size : ∀ f, Row.size (h f) = Row.size f
  alignment : ∀ f, Row.alignment (h f) = Row.alignment f
  moved : ∀ f off, Row.moved (h f) off = h (Row.moved f off)

theorem Keeps.placeFrom_map {h : F → G} (hh : Keeps h) (off : ℕ) (fs : List F) :
    placeFrom off (fs.map h) = ((placeFrom off fs).1.map h, (placeFrom off fs).2) := by
  induction fs generalizing off with
  | nil => rfl
  | cons f fs ih =>
    simp only [List.map_cons, placeFrom, ih, hh.size, hh.alignment, hh.moved]

namespace Placed

variable {off stop : ℕ} {fs placed : List F}

theorem exists_spec (h : Placed off fs placed stop) {g : F} (hg : g ∈ placed) :
    ∃ f ∈ fs, g = moved f (offset g) := by
  obtain ⟨i, hi, rfl⟩ := List.mem_iff_getElem.mp hg
  have hlen := h.rows.length_eq
  exact ⟨fs[i], List.getElem_mem _, h.rows.get (by omega) hi⟩

theorem exists_placed (h : Placed off fs placed stop) {f : F} (hf : f ∈ fs) :
    ∃ g ∈ placed, g = moved f (offset g) := by
  obtain ⟨i, hi, rfl⟩ := List.mem_iff_getElem.mp hf
  have hlen := h.rows.length_eq
  exact ⟨placed[i], List.getElem_mem _, h.rows.get hi (by omega)⟩

/-- Two placed rows are the same or apart. -/
theorem apart (h : Placed off fs placed stop) : ∀ f ∈ placed, ∀ g ∈ placed,
    f = g ∨ offset f + size f ≤ offset g ∨ offset g + size g ≤ offset f := by
  have : Std.Symm (fun f g : F =>
      f = g ∨ offset f + size f ≤ offset g ∨ offset g + size g ≤ offset f) := by
    constructor
    rintro f g (rfl | h | h)
    · exact .inl rfl
    · exact .inr (.inr h)
    · exact .inr (.inl h)
  apply List.Pairwise.forall_of_forall
  · exact fun f _ => .inl rfl
  · exact h.ascending.imp (fun hfg => .inr (.inl hfg))

end Placed

/-- What is written when each row's bytes go to its offset. -/
def rowWrites (bytes : F → List UInt8) (placed : List F) : List Write :=
  placed.map (fun f => ⟨offset f, bytes f⟩)

namespace Placed

variable {off stop n : ℕ} {fs placed : List F} {bytes : F → List UInt8}

theorem ascending_rowWrites (h : Placed off fs placed stop)
    (hlen : ∀ g ∈ placed, (bytes g).length ≤ size g) : Ascending (rowWrites bytes placed) := by
  rw [Ascending, rowWrites, List.pairwise_map]
  apply h.ascending.imp_of_mem
  intro f g hf _ hfg
  have hbytes := hlen f hf
  dsimp only
  omega

theorem rowWrites_fit (h : Placed off fs placed stop) (hstop : stop ≤ n)
    (hlen : ∀ g ∈ placed, (bytes g).length ≤ size g) :
    ∀ w ∈ rowWrites bytes placed, w.off + w.bytes.length ≤ n := by
  intro w hw
  obtain ⟨g, hg, rfl⟩ := List.mem_map.mp hw
  have hbytes := hlen g hg
  have hupper := h.upper g hg
  dsimp only
  omega

/-- The bytes of a row are read back. -/
theorem slice_bytes (h : Placed off fs placed stop) (hstop : stop ≤ n)
    (hlen : ∀ g ∈ placed, (bytes g).length ≤ size g) {f : F} (hf : f ∈ placed) :
    slice (putAll (zeroImage : Image n) (rowWrites bytes placed)) (offset f) (bytes f).length =
      bytes f :=
  slice_putAll zeroImage _ (h.ascending_rowWrites hlen) (h.rowWrites_fit hstop hlen)
    ⟨offset f, bytes f⟩ (List.mem_map_of_mem hf)

/-- The range of a row holds its bytes, then zero bytes: no other row's write touches it. -/
theorem slice_row (h : Placed off fs placed stop) (hstop : stop ≤ n)
    (hlen : ∀ g ∈ placed, (bytes g).length ≤ size g) {f : F} (hf : f ∈ placed) :
    slice (putAll (zeroImage : Image n) (rowWrites bytes placed)) (offset f) (size f) =
      bytes f ++ List.replicate (size f - (bytes f).length) 0 := by
  have hrest : slice (putAll (zeroImage : Image n) (rowWrites bytes placed))
      (offset f + (bytes f).length) (size f - (bytes f).length) =
      slice (zeroImage : Image n) (offset f + (bytes f).length) (size f - (bytes f).length) := by
    apply slice_putAll_of_disjoint
    intro w hw
    obtain ⟨g, hg, rfl⟩ := List.mem_map.mp hw
    have hf' := hlen f hf
    have hg' := hlen g hg
    dsimp only
    rcases h.apart f hf g hg with rfl | hapart | hapart
    · exact .inr le_rfl
    · exact .inl (by omega)
    · exact .inr (by omega)
  have hsize : size f = (bytes f).length + (size f - (bytes f).length) := by
    have hf' := hlen f hf
    omega
  conv_lhs => rw [hsize]
  rw [slice_add, h.slice_bytes hstop hlen hf, hrest, slice_zeroImage]

end Placed

end

end K3smApis.RowLayout
