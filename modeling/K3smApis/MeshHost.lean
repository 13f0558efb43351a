import K3smApis.TextLines

/-!
# Host names of mesh endpoints

`validDNSName` of `mesh.go`: one scan over the bytes with a counter of the current label,
and a look back at the byte before each dot and at the last byte. An index outside the
string is a panic, so every look back is an `Option` here.
-/
namespace K3smApis.Net
open Ascii

/-- `h[i]`; `none` is the panic of an index out of range. -/
def byteAt (h : GoString) (i : ℤ) : Option UInt8 := if i < 0 then none else h[i.toNat]?

/-- The cases of the switch for any byte but a dot: whether it may stand `label` bytes into
a label. -/
def mayStand (c : UInt8) (label : ℕ) : Bool :=
  if isAlnum c then true
  else if c = dash then label ≠ 0
  else false

/-- The loop of `validDNSName` from byte `i` on, `label` bytes into a label, and the test
after it. The list is `h[i:]`. -/
def scanLabels (h : GoString) : (i label : ℕ) → GoString → Option Bool
  | _, label, [] =>
    if label = 0 then some false
    else (byteAt h (h.length - 1)).map (fun b => b ≠ dash)
  | i, label, c :: cs =>
    if c = dot then
      if label = 0 then some false
      else (byteAt h (i - 1)).bind (fun b =>
        if b = dash then some false else scanLabels h (i + 1) 0 cs)
    else if mayStand c label = false then some false
    else if 63 < label + 1 then some false
    else scanLabels h (i + 1) (label + 1) cs

/-- `validDNSName`; `none` is a panic. -/
def validDNSName (h : GoString) : Option Bool :=
  if 253 < h.length then some false else scanLabels h 0 0 h

/-- The bytes of a label. -/
def labelByte (c : UInt8) : Prop := isAlnum c = true ∨ c = dash

/-- What a scan has seen of a label: it may still end in a dash, or be empty. -/
structure LabelStart (l : GoString) : Prop where
  length : l.length ≤ 63
  bytes : ∀ c ∈ l, labelByte c
  first : l.head? ≠ some dash

/-- A label: 1 to 63 letters, digits and dashes, and no dash at either end. -/
structure HostLabel (l : GoString) : Prop where
  nonempty : 1 ≤ l.length
  length : l.length ≤ 63
  bytes : ∀ c ∈ l, labelByte c
  first : l.head? ≠ some dash
  last : l.getLast? ≠ some dash

theorem hostLabel_iff {l : GoString} :
    HostLabel l ↔ LabelStart l ∧ l ≠ [] ∧ l.getLast? ≠ some dash := by
  constructor
  · intro h
    exact ⟨⟨h.length, h.bytes, h.first⟩, List.ne_nil_of_length_pos h.nonempty, h.last⟩
  · rintro ⟨h, hne, hlast⟩
    exact ⟨List.length_pos_of_ne_nil hne, h.length, h.bytes, h.first, hlast⟩

theorem labelStart_nil : LabelStart [] := ⟨by simp, by simp, by simp⟩

theorem LabelStart.of_append {a b : GoString} (h : LabelStart (a ++ b)) : LabelStart a := by
  refine ⟨?_, fun c hc => h.bytes c (List.mem_append_left _ hc), fun hhead => h.first ?_⟩
  · have hlen := h.length
    rw [List.length_append] at hlen
    omega
  · rw [List.head?_append, hhead, Option.some_or]

theorem mayStand_iff {c : UInt8} {l : GoString} :
    mayStand c l.length = true ↔ isAlnum c = true ∨ c = dash ∧ l ≠ [] := by
  unfold mayStand
  split_ifs with halnum hdash
  · exact iff_of_true rfl (.inl halnum)
  · subst hdash
    simp [halnum]
  · simp [halnum, hdash]

/-- What the loop checks of one more byte. -/
theorem labelStart_concat {l : GoString} {c : UInt8} (h : LabelStart l) :
    LabelStart (l ++ [c]) ↔ mayStand c l.length = true ∧ l.length + 1 ≤ 63 := by
  rw [mayStand_iff]
  constructor
  · intro hc
    refine ⟨?_, by simpa using hc.length⟩
    rcases hc.bytes c (by simp) with halnum | hdash
    · exact .inl halnum
    · refine .inr ⟨hdash, ?_⟩
      rintro rfl
      exact hc.first (congrArg some hdash)
  · rintro ⟨hc, hlen⟩
    refine ⟨by simpa using hlen, ?_, ?_⟩
    · refine List.forall_mem_append.mpr ⟨h.bytes, List.forall_mem_singleton.mpr ?_⟩
      exact hc.imp_right And.left
    · rw [List.head?_append]
      cases l with
      | cons b l => exact h.first
      | nil =>
        rintro hdash
        rcases hc with halnum | ⟨-, hne⟩
        · rw [Option.some.inj hdash] at halnum
          exact absurd halnum (by decide)
        · exact hne rfl

theorem LabelStart.dot_notMem {l : GoString} (h : LabelStart l) : dot ∉ l := by
  intro hmem
  rcases h.bytes _ hmem with halnum | hdash
  · exact absurd halnum (by decide)
  · exact absurd hdash (by decide)

/-- The byte before position `i`, inside a label. -/
theorem byteAt_pred {pre cur rest : GoString} (hne : cur ≠ []) :
    byteAt (pre ++ cur ++ rest) ((pre.length + cur.length : ℕ) - 1) = cur.getLast? := by
  have hpos := List.length_pos_of_ne_nil hne
  have hidx : (((pre.length + cur.length : ℕ) : ℤ) - 1).toNat = pre.length + (cur.length - 1) := by
    omega
  rw [byteAt, if_neg (by omega), hidx, List.append_assoc, List.getElem?_append_right (by omega),
    Nat.add_sub_cancel_left, List.getElem?_append_left (by omega), List.getLast?_eq_getElem?]

/-- The invariant of the loop: `pre` ends at the last dot, `cur` is what the current label
has so far. The scan then decides the labels of the rest, and every look back finds its
byte in `cur`. -/
theorem scanLabels_spec (pre : GoString) {cur : GoString} (hcur : LabelStart cur)
    (rest : GoString) :
    ∃ b, scanLabels (pre ++ cur ++ rest) (pre.length + cur.length) cur.length rest = some b ∧
      (b = true ↔ ∀ l ∈ (cur ++ rest).splitOn dot, HostLabel l) := by
  induction rest generalizing pre cur with
  | nil =>
    have hlabels : (cur ++ []).splitOn dot = [cur] := by
      rw [List.append_nil]
      exact List.splitOn_eq_singleton hcur.dot_notMem
    rw [hlabels, List.forall_mem_singleton, hostLabel_iff, scanLabels]
    by_cases hne : cur = []
    · refine ⟨false, if_pos (by rw [hne]; rfl), iff_of_false Bool.false_ne_true ?_⟩
      exact fun h => h.2.1 hne
    · have hlen : (((pre ++ cur ++ []).length : ℕ) : ℤ) = (pre.length + cur.length : ℕ) := by simp
      obtain ⟨b, hb⟩ : ∃ b, cur.getLast? = some b := ⟨_, List.getLast?_eq_some_getLast hne⟩
      rw [if_neg (by simpa using hne), hlen, byteAt_pred hne, hb, Option.map_some]
      refine ⟨_, rfl, ?_⟩
      simp [hcur, hne]
  | cons c rest ih =>
    rw [scanLabels]
    by_cases hdot : c = dot
    · subst hdot
      rw [if_pos rfl, List.splitOn_append_cons_self_of_not_mem hcur.dot_notMem,
        List.forall_mem_cons, hostLabel_iff]
      by_cases hne : cur = []
      · refine ⟨false, if_pos (by rw [hne]; rfl), iff_of_false Bool.false_ne_true ?_⟩
        exact fun h => h.1.2.1 hne
      obtain ⟨b, hb⟩ : ∃ b, cur.getLast? = some b := ⟨_, List.getLast?_eq_some_getLast hne⟩
      rw [if_neg (by simpa using hne), byteAt_pred hne, hb, Option.bind_some]
      by_cases hdash : b = dash
      · refine ⟨false, if_pos hdash, iff_of_false Bool.false_ne_true ?_⟩
        exact fun h => h.1.2.2 (congrArg some hdash)
      · obtain ⟨r, hr, hspec⟩ := ih (pre ++ cur ++ [dot]) labelStart_nil
        refine ⟨r, ?_, ?_⟩
        · rw [if_neg hdash]
          simpa [Nat.add_assoc] using hr
        · rw [hspec]
          simp [hcur, hne, hdash]
    · rw [if_neg hdot]
      by_cases hnext : LabelStart (cur ++ [c])
      · obtain ⟨hc, hlen⟩ := (labelStart_concat hcur).mp hnext
        obtain ⟨r, hr, hspec⟩ := ih pre hnext
        refine ⟨r, ?_, ?_⟩
        · rw [if_neg (by simp [hc]), if_neg (by omega)]
          simpa [Nat.add_assoc] using hr
        · simpa using hspec
      · have hbad : ¬∀ l ∈ (cur ++ c :: rest).splitOn dot, HostLabel l := by
          intro h
          have hlabel : dot ∉ cur ++ [c] := by simp [hcur.dot_notMem, Ne.symm hdot]
          obtain ⟨d, ls, hsplit⟩ := Lines.exists_splitOn_append hlabel rest
          rw [List.append_assoc, List.singleton_append] at hsplit
          rw [hsplit] at h
          exact hnext (hostLabel_iff.mp (h _ (.head _))).1.of_append
        refine ⟨false, ?_, iff_of_false Bool.false_ne_true hbad⟩
        split_ifs with hbyte hlong
        · rfl
        · rfl
        · refine absurd ((labelStart_concat hcur).mpr ⟨?_, by omega⟩) hnext
          exact Bool.eq_true_of_not_eq_false hbyte

/-- `validDNSName` returns for every string, so no look back leaves it, and it accepts a
string exactly when it has at most 253 bytes and each of its labels is one. -/
theorem validDNSName_iff (h : GoString) :
    ∃ b, validDNSName h = some b ∧
      (b = true ↔ h.length ≤ 253 ∧ ∀ l ∈ h.splitOn dot, HostLabel l) := by
  unfold validDNSName
  by_cases hlen : 253 < h.length
  · refine ⟨false, if_pos hlen, iff_of_false Bool.false_ne_true ?_⟩
    exact fun hvalid => absurd hvalid.1 (by omega)
  · obtain ⟨b, hb, hspec⟩ := scanLabels_spec [] labelStart_nil h
    refine ⟨b, ?_, ?_⟩
    · rw [if_neg hlen]
      exact hb
    · rw [hspec, List.nil_append]
      exact ⟨fun hall => ⟨by omega, hall⟩, fun hvalid => hvalid.2⟩

end K3smApis.Net
