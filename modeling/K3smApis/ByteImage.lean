import Mathlib.Data.List.GetD
import Mathlib.Tactic

/-!
# Little-endian words in a fixed-size byte image

An image is a byte array of fixed size. `put` overwrites a range and `slice` reads
one; `putAll` performs a list of writes in order. The rules below say that writes
to ranges in ascending order read back unchanged and leave every other byte alone.
-/
namespace K3smApis.ByteImage

/-- The low `width` bytes of `v`, least significant first. -/
def leBytes : ℕ → ℕ → List UInt8
  | 0, _ => []
  | width + 1, v => UInt8.ofNat (v % 256) :: leBytes width (v / 256)

/-- The number a little-endian byte string denotes. -/
def leNat : List UInt8 → ℕ
  | [] => 0
  | b :: bs => b.toNat + 256 * leNat bs

@[simp] theorem leBytes_length (width v : ℕ) : (leBytes width v).length = width := by
  induction width generalizing v with
  | zero => rfl
  | succ width ih => simp [leBytes, ih]

theorem leNat_leBytes (width v : ℕ) : leNat (leBytes width v) = v % 256 ^ width := by
  induction width generalizing v with
  | zero => simp [leBytes, leNat, Nat.mod_one]
  | succ width ih =>
    have hb : (UInt8.ofNat (v % 256)).toNat = v % 256 := by simp
    rw [leBytes, leNat, hb, ih, pow_succ', Nat.mod_mul]

theorem take_leBytes {k width : ℕ} (h : k ≤ width) (v : ℕ) :
    (leBytes width v).take k = leBytes k v := by
  induction k generalizing width v with
  | zero => rfl
  | succ k ih =>
    obtain ⟨width, rfl⟩ : ∃ w, width = w + 1 := ⟨width - 1, by omega⟩
    simp only [leBytes, List.take_succ_cons, ih (by omega : k ≤ width)]

theorem drop_leBytes (k width v : ℕ) :
    (leBytes width v).drop k = leBytes (width - k) (v / 256 ^ k) := by
  induction k generalizing width v with
  | zero => simp
  | succ k ih =>
    cases width with
    | zero => simp [leBytes]
    | succ width =>
      rw [leBytes, List.drop_succ_cons, ih, Nat.div_div_eq_div_mul, pow_succ',
        Nat.add_sub_add_right]

/-- A byte array of `n` bytes. -/
abbrev Image (n : ℕ) := Fin n → UInt8

variable {n : ℕ}

/-- The byte at a position, 0 beyond the end. -/
def byteAt (p : Image n) (i : ℕ) : UInt8 := if h : i < n then p ⟨i, h⟩ else 0

def zeroImage : Image n := fun _ => 0

@[simp] theorem byteAt_zeroImage (i : ℕ) : byteAt (zeroImage : Image n) i = 0 := by
  simp [byteAt, zeroImage]

/-- `copy(p[off:], bytes)`: overwrite the range that starts at `off`. -/
def put (p : Image n) (off : ℕ) (bytes : List UInt8) : Image n := fun i =>
  if off ≤ i.val ∧ i.val < off + bytes.length then bytes.getD (i.val - off) 0 else p i

/-- The `len` bytes that start at `off`. -/
def slice (p : Image n) (off len : ℕ) : List UInt8 :=
  (List.range len).map (fun i => byteAt p (off + i))

@[simp] theorem slice_length (p : Image n) (off len : ℕ) : (slice p off len).length = len := by
  simp [slice]

theorem byteAt_put (p : Image n) (off : ℕ) (bytes : List UInt8) (i : ℕ) (hi : i < n) :
    byteAt (put p off bytes) i =
      if off ≤ i ∧ i < off + bytes.length then bytes.getD (i - off) 0 else byteAt p i := by
  simp [byteAt, put, hi]

theorem byteAt_put_of_not_mem (p : Image n) (off : ℕ) (bytes : List UInt8) (i : ℕ)
    (h : ¬(off ≤ i ∧ i < off + bytes.length)) : byteAt (put p off bytes) i = byteAt p i := by
  by_cases hi : i < n
  · rw [byteAt_put p off bytes i hi, if_neg h]
  · simp [byteAt, hi]

theorem slice_put_same (p : Image n) (off : ℕ) (bytes : List UInt8)
    (h : off + bytes.length ≤ n) : slice (put p off bytes) off bytes.length = bytes := by
  apply List.ext_getElem
  · simp
  · intro i hi hb
    have hn : off + i < n := by omega
    have hbyte : byteAt (put p off bytes) (off + i) = bytes[i] := by
      rw [byteAt_put p off bytes _ hn, if_pos ⟨by omega, by omega⟩, Nat.add_sub_cancel_left,
        List.getD_eq_getElem _ _ hb]
    simpa only [slice, List.getElem_map, List.getElem_range] using hbyte

theorem slice_put_of_disjoint (p : Image n) (off : ℕ) (bytes : List UInt8) (off' len : ℕ)
    (h : off' + len ≤ off ∨ off + bytes.length ≤ off') :
    slice (put p off bytes) off' len = slice p off' len := by
  apply List.map_congr_left
  intro i hi
  have hlen := List.mem_range.mp hi
  exact byteAt_put_of_not_mem p off bytes _ (by omega)

/-- A write of `bytes` at `off`. -/
structure Write where
  off : ℕ
  bytes : List UInt8
  deriving DecidableEq, Repr

/-- Perform the writes in order. -/
def putAll (p : Image n) (ws : List Write) : Image n :=
  ws.foldl (fun q w => put q w.off w.bytes) p

/-- The writes go to ranges in ascending order, each past the end of the one before. -/
def Ascending (ws : List Write) : Prop :=
  ws.Pairwise (fun a b => a.off + a.bytes.length ≤ b.off)

theorem slice_putAll_of_disjoint (p : Image n) (ws : List Write) (off len : ℕ)
    (h : ∀ w ∈ ws, off + len ≤ w.off ∨ w.off + w.bytes.length ≤ off) :
    slice (putAll p ws) off len = slice p off len := by
  induction ws generalizing p with
  | nil => rfl
  | cons w ws ih =>
    rw [putAll, List.foldl_cons]
    change slice (putAll (put p w.off w.bytes) ws) off len = _
    rw [ih _ (fun x hx => h x (List.mem_cons_of_mem _ hx)),
      slice_put_of_disjoint _ _ _ _ _ (h w List.mem_cons_self)]

/-- Every write of an ascending list reads back. -/
theorem slice_putAll (p : Image n) (ws : List Write) (hasc : Ascending ws)
    (hfit : ∀ w ∈ ws, w.off + w.bytes.length ≤ n) (w : Write) (hw : w ∈ ws) :
    slice (putAll p ws) w.off w.bytes.length = w.bytes := by
  induction ws generalizing p with
  | nil => simp at hw
  | cons x ws ih =>
    obtain ⟨hx, htail⟩ := List.pairwise_cons.mp hasc
    change slice (putAll (put p x.off x.bytes) ws) w.off w.bytes.length = w.bytes
    rcases List.mem_cons.mp hw with rfl | hmem
    · -- the later writes start past the end of this one
      rw [slice_putAll_of_disjoint _ _ _ _ (fun y hy => Or.inl (hx y hy))]
      exact slice_put_same _ _ _ (hfit _ List.mem_cons_self)
    · exact ih _ htail (fun y hy => hfit y (List.mem_cons_of_mem _ hy)) hmem

theorem slice_add (p : Image n) (off a b : ℕ) :
    slice p off (a + b) = slice p off a ++ slice p (off + a) b := by
  simp only [slice, List.range_add, List.map_append, List.map_map, Function.comp_def,
    Nat.add_assoc]

theorem slice_zeroImage (off len : ℕ) :
    slice (zeroImage : Image n) off len = List.replicate len 0 := by
  simp [slice]

/-- The 8-byte little-endian word at `off`. -/
def wordAt (p : Image n) (off : ℕ) : UInt64 := UInt64.ofNat (leNat (slice p off 8))

theorem wordAt_of_slice (p : Image n) (off : ℕ) (v : UInt64)
    (h : slice p off 8 = leBytes 8 v.toNat) : wordAt p off = v := by
  have hv : v.toNat < 256 ^ 8 := v.toNat_lt
  rw [wordAt, h, leNat_leBytes, Nat.mod_eq_of_lt hv, UInt64.ofNat_toNat]

end K3smApis.ByteImage
