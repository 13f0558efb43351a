import K3smApis.JsonText
import K3smApis.RuneText

/-!
# Runes of a Go string

The range loop over a string: its runes with the bytes each was decoded from, U+FFFD for a
byte that starts no well-formed sequence. An ASCII byte always stands for itself and ends
whatever is before it, so a text can be cut at one.
-/
namespace K3smApis.Utf8
open Json (leadByte runeSize)

/-- The code point of a sequence of `n` bytes. -/
def codePoint (n : ℕ) (b : UInt8) (tail : GoString) : ℕ :=
  tail.foldl (fun r c => 64 * r + c.toNat % 64) (b.toNat % 2 ^ (7 - n))

/-- `utf8.DecodeRuneInString`: the rune a string starts with and its length. -/
def firstRune (b : UInt8) (bs : GoString) : Char × ℕ :=
  if b < 0x80 then (Char.ofNat b.toNat, 1)
  else match runeSize b bs with
    | 0 => (Char.ofNat 0xfffd, 1)
    | n => (Char.ofNat (codePoint n b (bs.take (n - 1))), n)

/-- The counter is what is left of the rune read last. -/
def spansFrom : ℕ → GoString → List (Char × GoString)
  | _, [] => []
  | skip + 1, _ :: bs => spansFrom skip bs
  | 0, b :: bs =>
    ((firstRune b bs).1, (b :: bs).take (firstRune b bs).2) ::
      spansFrom ((firstRune b bs).2 - 1) bs

/-- The runes of a string with their bytes. -/
def spans (s : GoString) : List (Char × GoString) := spansFrom 0 s

/-- The runes of a range loop. -/
def runes (s : GoString) : Text := (spans s).map Prod.fst

example : runes [0x41, 0xc5, 0xbf, 0xff, 0xe2, 0x84, 0xaa, 0xe2, 0x84] =
    [0x41, 0x17f, 0xfffd, 0x212a, 0xfffd, 0xfffd].map Char.ofNat := by
  decide +kernel

/-- A lead byte is followed by one byte at least, and by none that is ASCII. -/
theorem leadByte_spec {b lo hi : UInt8} {n : ℕ} (h : leadByte b = some (n, lo, hi)) :
    2 ≤ n ∧ 0x80 ≤ lo := by
  unfold leadByte at h
  split_ifs at h <;> (obtain ⟨rfl, rfl, -⟩ := by simpa using h) <;> decide

/-- A sequence is not longer than what is there, and an ASCII byte after a text does not
continue it. -/
theorem runeSize_append (b : UInt8) (bs t : GoString) {a : UInt8} (ha : a < 0x80) :
    runeSize b bs ≤ bs.length + 1 ∧ runeSize b (bs ++ a :: t) = runeSize b bs := by
  unfold runeSize
  cases hlead : leadByte b with
  | none => simp
  | some spec =>
    obtain ⟨n, lo, hi⟩ := spec
    obtain ⟨hn, hlo⟩ := leadByte_spec hlead
    cases bs with
    | nil =>
      refine ⟨Nat.zero_le _, if_neg (fun h => ?_)⟩
      exact absurd (UInt8.le_trans hlo h.1) (UInt8.not_le.mpr ha)
    | cons c cs =>
      dsimp only [List.cons_append]
      by_cases hlen : n - 2 ≤ cs.length
      · rw [List.take_append_of_le_length hlen]
        refine ⟨?_, rfl⟩
        split_ifs
        · simp only [List.length_cons]
          omega
        · exact Nat.zero_le _
      · -- the sequence would have to go on over the ASCII byte
        have hshort : cs.take (n - 2) = cs := List.take_of_length_le (by omega)
        have hlong : a ∈ (cs ++ a :: t).take (n - 2) := by
          rw [List.take_append, List.mem_append]
          obtain ⟨k, hk⟩ : ∃ k, n - 2 - cs.length = k + 1 := ⟨n - 2 - cs.length - 1, by omega⟩
          rw [hk, List.take_succ_cons]
          exact .inr (List.mem_cons_self ..)
        have hleft : ¬(lo ≤ c ∧ c ≤ hi ∧ ((cs ++ a :: t).take (n - 2)).length = n - 2 ∧
            ((cs ++ a :: t).take (n - 2)).all (fun d => 0x80 ≤ d && d ≤ 0xbf) = true) := by
          rintro ⟨-, -, -, hall⟩
          have hbyte := List.all_eq_true.mp hall a hlong
          simp only [Bool.and_eq_true, decide_eq_true_eq] at hbyte
          exact absurd hbyte.1 (UInt8.not_le.mpr ha)
        have hright : ¬(lo ≤ c ∧ c ≤ hi ∧ (cs.take (n - 2)).length = n - 2 ∧
            (cs.take (n - 2)).all (fun d => 0x80 ≤ d && d ≤ 0xbf) = true) := by
          rintro ⟨-, -, hlength, -⟩
          rw [hshort] at hlength
          omega
        rw [if_neg hleft, if_neg hright]
        exact ⟨Nat.zero_le _, rfl⟩

theorem firstRune_ascii {b : UInt8} (hb : b < 0x80) (bs : GoString) :
    firstRune b bs = (Char.ofNat b.toNat, 1) := if_pos hb

theorem firstRune_size (b : UInt8) (bs : GoString) :
    1 ≤ (firstRune b bs).2 ∧ (firstRune b bs).2 ≤ bs.length + 1 := by
  have hle := (runeSize_append b bs [] (by decide : (0 : UInt8) < 0x80)).1
  unfold firstRune
  split_ifs
  · simp
  · split
    · simp
    · rename_i n hzero
      exact ⟨Nat.pos_of_ne_zero (fun h => hzero h), hle⟩

theorem firstRune_append (b : UInt8) (bs t : GoString) {a : UInt8} (ha : a < 0x80) :
    firstRune b (bs ++ a :: t) = firstRune b bs := by
  obtain ⟨hle, hsame⟩ := runeSize_append b bs t ha
  unfold firstRune
  rw [hsame]
  split_ifs
  · rfl
  · split
    · rfl
    · rw [List.take_append_of_le_length (by omega)]

theorem toNat_ofNat {n : ℕ} (h : n.isValidChar) : (Char.ofNat n).toNat = n := by
  rw [Char.ofNat, dif_pos h]
  rfl

/-- What a lead byte and the byte behind it leave for the code point: no short form, no
surrogate, nothing beyond the last code point. -/
theorem leadByte_range {b lo hi c : UInt8} {n : ℕ} (h : leadByte b = some (n, lo, hi))
    (hlo : lo ≤ c) (hhi : c ≤ hi) :
    n = 2 ∧ 2 ≤ b.toNat % 32 ∨
      n = 3 ∧ (let r := b.toNat % 16 * 64 + c.toNat % 64
        32 ≤ r ∧ (r < 0xd800 / 64 ∨ 0xe000 / 64 ≤ r)) ∨
      n = 4 ∧ (let r := b.toNat % 8 * 64 + c.toNat % 64
        16 ≤ r ∧ r < 0x110000 / 4096) := by
  have hb (k : UInt8) : b = k ↔ b.toNat = k.toNat := UInt8.toNat_inj.symm
  rw [UInt8.le_iff_toNat_le] at hlo hhi
  unfold leadByte at h
  simp only [UInt8.le_iff_toNat_le, hb] at h
  split_ifs at h with h1 h2 h3 h4 h5 h6 h7 <;> obtain ⟨rfl, rfl, rfl⟩ := by simpa using h
  all_goals simp at *
  all_goals omega

/-- A sequence of several bytes stands for a code point beyond ASCII. -/
theorem codePoint_range {b : UInt8} {bs : GoString} {n : ℕ} (h : runeSize b bs = n + 1) :
    0x80 ≤ codePoint (n + 1) b (bs.take n) ∧ (codePoint (n + 1) b (bs.take n)).isValidChar := by
  unfold runeSize at h
  split at h
  case h_2 => cases h
  case h_1 size lo hi c cs hlead =>
    dsimp only at h
    split_ifs at h with hwell
    subst h
    obtain ⟨hlo, hhi, hlen, -⟩ := hwell
    have hcs : n - 1 ≤ cs.length := by
      rw [List.length_take] at hlen
      omega
    obtain ⟨hn, hr⟩ | ⟨hn, hr⟩ | ⟨hn, hr⟩ := leadByte_range hlead hlo hhi
    · obtain rfl : n = 1 := by omega
      simp only [codePoint, List.take_succ_cons, List.take_zero, List.foldl_cons, List.foldl_nil,
        Nat.isValidChar]
      omega
    · obtain rfl : n = 2 := by omega
      obtain ⟨d, cs, rfl⟩ := List.exists_cons_of_length_pos (show 0 < cs.length by omega)
      simp only [codePoint, List.take_succ_cons, List.take_zero, List.foldl_cons, List.foldl_nil,
        Nat.isValidChar]
      omega
    · obtain rfl : n = 3 := by omega
      obtain ⟨d, cs, rfl⟩ := List.exists_cons_of_length_pos (show 0 < cs.length by omega)
      rw [List.length_cons] at hcs
      obtain ⟨e, cs, rfl⟩ := List.exists_cons_of_length_pos (show 0 < cs.length by omega)
      simp only [codePoint, List.take_succ_cons, List.take_zero, List.foldl_cons, List.foldl_nil,
        Nat.isValidChar]
      omega

/-- Only an ASCII byte starts an ASCII rune. -/
theorem ascii_of_firstRune {b : UInt8} {bs : GoString} (h : (firstRune b bs).1.toNat < 0x80) :
    b < 0x80 := by
  by_contra hb
  rw [firstRune, if_neg hb] at h
  split at h
  · exact absurd h (by decide)
  · rename_i hne
    obtain ⟨n, hn⟩ := Nat.exists_eq_succ_of_ne_zero hne
    obtain ⟨hlo, hvalid⟩ := codePoint_range hn
    rw [hn, Nat.succ_sub_one, toNat_ofNat hvalid] at h
    exact absurd hlo (Nat.not_le.mpr h)

theorem spansFrom_drop (n : ℕ) (s : GoString) : spansFrom n s = spans (s.drop n) := by
  induction s generalizing n with
  | nil => cases n <;> rfl
  | cons b bs ih =>
    cases n with
    | zero => rfl
    | succ n => exact ih n

theorem spans_cons (b : UInt8) (bs : GoString) :
    spans (b :: bs) = ((firstRune b bs).1, (b :: bs).take (firstRune b bs).2) ::
      spans ((b :: bs).drop (firstRune b bs).2) := by
  obtain ⟨n, hn⟩ : ∃ n, (firstRune b bs).2 = n + 1 :=
    ⟨_, (Nat.sub_add_cancel (firstRune_size b bs).1).symm⟩
  rw [spans, spansFrom, spansFrom_drop, hn]
  rfl

theorem spans_ascii {b : UInt8} (hb : b < 0x80) (bs : GoString) :
    spans (b :: bs) = (Char.ofNat b.toNat, [b]) :: spans bs := by
  rw [spans_cons, firstRune_ascii hb]
  rfl

/-- The bytes of the runes are the string. -/
theorem flatMap_spans (s : GoString) : (spans s).flatMap Prod.snd = s := by
  induction hn : s.length using Nat.strongRecOn generalizing s with
  | ind n ih =>
    cases s with
    | nil => rfl
    | cons b bs =>
      have hpos := (firstRune_size b bs).1
      have hlength : ((b :: bs).drop (firstRune b bs).2).length < n := by
        rw [List.length_drop, ← hn, List.length_cons]
        omega
      rw [spans_cons, List.flatMap_cons, ih _ hlength _ rfl, List.take_append_drop]

/-- A text is cut at an ASCII byte. -/
theorem spans_append (s t : GoString) {a : UInt8} (ha : a < 0x80) :
    spans (s ++ a :: t) = spans s ++ (Char.ofNat a.toNat, [a]) :: spans t := by
  induction hn : s.length using Nat.strongRecOn generalizing s with
  | ind n ih =>
    cases s with
    | nil => exact spans_ascii ha t
    | cons b bs =>
      obtain ⟨hpos, hle⟩ := firstRune_size b bs
      have hlength : ((b :: bs).drop (firstRune b bs).2).length < n := by
        rw [List.length_drop, ← hn, List.length_cons]
        omega
      rw [List.cons_append, spans_cons, spans_cons, firstRune_append b bs t ha, ← List.cons_append,
        List.take_append_of_le_length (by simpa using hle),
        List.drop_append_of_le_length (by simpa using hle), ih _ hlength _ rfl, List.cons_append]

theorem runes_append (s t : GoString) {a : UInt8} (ha : a < 0x80) :
    runes (s ++ a :: t) = runes s ++ Char.ofNat a.toNat :: runes t := by
  rw [runes, spans_append s t ha, List.map_append, List.map_cons]
  rfl

theorem runes_of_ascii {s : GoString} (h : ∀ b ∈ s, b < 0x80) :
    runes s = s.map (fun b => Char.ofNat b.toNat) := by
  induction s with
  | nil => rfl
  | cons b s ih =>
    obtain ⟨hb, hs⟩ := List.forall_mem_cons.mp h
    rw [runes, spans_ascii hb, List.map_cons, List.map_cons, ← ih hs]
    rfl

theorem ascii_of_runes {s : GoString} (h : ∀ c ∈ runes s, c.toNat < 0x80) : ∀ b ∈ s, b < 0x80 := by
  induction s with
  | nil => simp
  | cons b s ih =>
    have hb : b < 0x80 := by
      rw [runes, spans_cons, List.map_cons] at h
      exact ascii_of_firstRune (h _ (List.mem_cons_self ..))
    rw [runes, spans_ascii hb, List.map_cons] at h
    exact List.forall_mem_cons.mpr ⟨hb, ih fun c hc => h c (List.mem_cons_of_mem _ hc)⟩

/-- ASCII text is written in one way. -/
theorem runes_eq_ascii {s w : GoString} (hw : ∀ b ∈ w, b < 0x80) : runes s = runes w ↔ s = w := by
  constructor
  · intro h
    have hbyte (b : UInt8) (hb : b < 0x80) : (Char.ofNat b.toNat).toNat = b.toNat := by
      have hlt : b.toNat < 0x80 := UInt8.lt_iff_toNat_lt.mp hb
      exact toNat_ofNat (.inl (by omega))
    have hs : ∀ b ∈ s, b < 0x80 := by
      refine ascii_of_runes fun c hc => ?_
      rw [h, runes_of_ascii hw] at hc
      obtain ⟨b, hb, rfl⟩ := List.mem_map.mp hc
      rw [hbyte b (hw b hb)]
      exact UInt8.lt_iff_toNat_lt.mp (hw b hb)
    rw [runes_of_ascii hs, runes_of_ascii hw] at h
    have hinj (v : GoString) (hv : ∀ b ∈ v, b < 0x80) :
        (v.map (fun b => Char.ofNat b.toNat)).map (fun c => UInt8.ofNat c.toNat) = v := by
      rw [List.map_map, List.map_congr_left (g := id), List.map_id]
      intro b hb
      rw [Function.comp_apply, hbyte b (hv b hb), UInt8.ofNat_toNat, id]
    rw [← hinj s hs, h, hinj w hw]
  · rintro rfl
    rfl

/-- `strings.FieldsFunc`. -/
def fields (sep : Char → Bool) (s : GoString) : List GoString :=
  (((spans s).splitOnP (fun u => sep u.1)).filter (fun w => w ≠ [])).map (List.flatMap Prod.snd)

theorem spans_ne_nil {s : GoString} (h : s ≠ []) : spans s ≠ [] := by
  intro hnil
  have hbytes := flatMap_spans s
  rw [hnil] at hbytes
  exact h hbytes.symm

/-- A string without a separator is one word. -/
theorem fields_word {sep : Char → Bool} {s : GoString} (hne : s ≠ [])
    (hs : ∀ c ∈ runes s, sep c = false) : fields sep s = [s] := by
  have hnone : ∀ u ∈ spans s, sep u.1 = false := fun u hu => hs u.1 (List.mem_map_of_mem hu)
  rw [fields, List.splitOnP_eq_singleton hnone]
  simp [spans_ne_nil hne, flatMap_spans]

/-- A word is cut off at an ASCII separator. -/
theorem fields_cons {sep : Char → Bool} {s : GoString} (hne : s ≠ [])
    (hs : ∀ c ∈ runes s, sep c = false) {a : UInt8} (ha : a < 0x80)
    (hsep : sep (Char.ofNat a.toNat) = true) (t : GoString) :
    fields sep (s ++ a :: t) = s :: fields sep t := by
  have hnone : ∀ u ∈ spans s, sep u.1 = false := fun u hu => hs u.1 (List.mem_map_of_mem hu)
  have hcut : (spans s ++ (Char.ofNat a.toNat, [a]) :: spans t).splitOnP (fun u => sep u.1) =
      spans s :: (spans t).splitOnP (fun u => sep u.1) :=
    List.splitOnP_append_cons_of_forall_mem hnone _ hsep _
  rw [fields, spans_append s t ha, hcut, List.filter_cons_of_pos (by simp [spans_ne_nil hne]),
    List.map_cons, flatMap_spans]
  rfl

/-- The runes that fold to an ASCII letter, in upper case: those of ASCII, U+017F and
U+212A. -/
def foldRune (c : Char) : Char :=
  if c.toNat = 0x17f then 'S' else if c.toNat = 0x212a then 'K' else c.toUpper

/-- `strings.EqualFold`, of a string with an ASCII one. -/
def equalFold (s t : GoString) : Bool := (runes s).map foldRune = (runes t).map foldRune

theorem lowerByte_ascii {b : UInt8} : lowerByte b < 0x80 ↔ b < 0x80 := by
  have hall : ∀ n < 256, lowerByte (UInt8.ofNat n) < 0x80 ↔ UInt8.ofNat n < 0x80 := by
    decide +kernel
  simpa using hall b.toNat b.toNat_lt

theorem foldRune_lowerByte {b : UInt8} (hb : b < 0x80) :
    foldRune (Char.ofNat (lowerByte b).toNat) = foldRune (Char.ofNat b.toNat) := by
  have hall : ∀ n < 128, foldRune (Char.ofNat (lowerByte (UInt8.ofNat n)).toNat) =
      foldRune (Char.ofNat (UInt8.ofNat n).toNat) := by
    decide +kernel
  simpa using hall b.toNat (UInt8.lt_iff_toNat_lt.mp hb)

/-- Strings that are equal up to ASCII case are equal under folding. -/
theorem equalFold_of_foldCase {s t : GoString} (ht : ∀ b ∈ t, b < 0x80)
    (h : foldCase s = foldCase t) : equalFold s t = true := by
  have hs : ∀ b ∈ s, b < 0x80 := by
    intro b hb
    have hmem : lowerByte b ∈ foldCase t := h ▸ List.mem_map_of_mem hb
    obtain ⟨c, hc, hsame⟩ := List.mem_map.mp hmem
    exact lowerByte_ascii.mp (hsame ▸ lowerByte_ascii.mpr (ht c hc))
  have hrunes : ∀ {u : GoString}, (∀ b ∈ u, b < 0x80) → (runes u).map foldRune =
      (foldCase u).map (fun b => foldRune (Char.ofNat b.toNat)) := by
    intro u hu
    rw [runes_of_ascii hu, foldCase, List.map_map, List.map_map]
    exact List.map_congr_left fun b hb => (foldRune_lowerByte (hu b hb)).symm
  rw [equalFold, decide_eq_true_eq, hrunes hs, hrunes ht, h]

end K3smApis.Utf8
