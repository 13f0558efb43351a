import K3smApis.PageWriter

/-!
# The header line as words

The fields of the header line in terms of its words, the header line of any minor,
and the stores with which a writer of that minor resumes a page.
-/
namespace K3smApis.Budget
open ByteImage AtomicProgram

theorem pageOffset_header : pageOffset .abiMajor = 8 ∧ pageOffset .abiMinor = 10 ∧
    pageOffset .headerSize = 12 ∧ pageOffset .bodySize = 16 := by
  decide +kernel

theorem headerOffsets_eq : headerOffsets = [0, 8, 16, 24, 32, 40, 48, 56] := rfl

theorem headerOrder_false : headerOrder false = [56, 48, 40, 32, 24, 16, 8, 0] := by
  decide +kernel

theorem headerOrder_true : headerOrder true = [56, 48, 40, 32, 24, 8, 16, 0] := by
  decide +kernel

theorem drop_headerBytes (k : ℕ) (words : List UInt64) :
    (headerBytes words).drop (8 * k) = headerBytes (words.drop k) := by
  induction k generalizing words with
  | zero => rfl
  | succ k ih =>
    cases words with
    | nil => simp [headerBytes]
    | cons w words =>
      rw [headerBytes, List.flatMap_cons, Nat.mul_succ, Nat.add_comm, ← List.drop_drop,
        List.drop_left' (leBytes_length 8 _), List.drop_succ_cons]
      exact ih words

/-- An integer inside one header word. -/
theorem uintIn_headerBytes (words : List UInt64) (k r width : ℕ) {w : UInt64}
    (hk : words[k]? = some w) (hr : r + width ≤ 8) :
    uintIn (headerBytes words) (8 * k + r) width = w.toNat / 256 ^ r % 256 ^ width := by
  have hdrop : words.drop k = w :: words.drop (k + 1) := by
    obtain ⟨hlt, rfl⟩ := List.getElem?_eq_some_iff.mp hk
    exact List.drop_eq_getElem_cons hlt
  rw [uintIn, ← List.drop_drop, drop_headerBytes, hdrop, headerBytes, List.flatMap_cons,
    List.drop_append_of_le_length (by rw [leBytes_length]; omega), drop_leBytes,
    List.take_append_of_le_length (by rw [leBytes_length]; omega),
    take_leBytes (by omega), leNat_leBytes]

/-- The abiMinor a memory's header carries. -/
def abiMinorAt (m : PageWords) : ℕ := uintIn (headerAt m) (pageOffset .abiMinor) 2

/-- The bodySize a memory's header carries. -/
def bodySizeAt (m : PageWords) : ℕ := uintIn (headerAt m) (pageOffset .bodySize) 4

/-- The magic as a word. -/
def magicWord : UInt64 := UInt64.ofNat (leNat pageMagic)

theorem abiMinorAt_eq (m : PageWords) : abiMinorAt m = (m 8).toNat / 2 ^ 16 % 2 ^ 16 := by
  rw [abiMinorAt, pageOffset_header.2.1]
  exact uintIn_headerBytes _ 1 2 2 rfl (by omega)

theorem bodySizeAt_eq (m : PageWords) : bodySizeAt m = (m 16).toNat % 2 ^ 32 := by
  rw [bodySizeAt, pageOffset_header.2.2.2]
  have h := uintIn_headerBytes (headerOffsets.map m) 2 0 4 rfl (by omega)
  rw [pow_zero, Nat.div_one] at h
  exact h

theorem leBytes_eq_magic (w : UInt64) : leBytes 8 w.toNat = pageMagic ↔ w = magicWord := by
  have hw : w.toNat < 256 ^ 8 := w.toNat_lt
  constructor
  · intro h
    have hnat := congrArg leNat h
    rw [leNat_leBytes, Nat.mod_eq_of_lt hw] at hnat
    rw [magicWord, ← hnat, UInt64.ofNat_toNat]
  · rintro rfl
    decide

/-- Recognition reads two words: the magic, and abiMajor and headerSize in word 8. -/
theorem recognised_iff (m : PageWords) : recognised (headerAt m) = true ↔
    m 0 = magicWord ∧ (m 8).toNat % 2 ^ 16 = 1 ∧ (m 8).toNat / 2 ^ 32 % 2 ^ 32 = 192 := by
  have hmagic : (headerAt m).take pageMagic.length = leBytes 8 (m 0).toNat :=
    List.take_left' (leBytes_length 8 _)
  have hmajor := uintIn_headerBytes (headerOffsets.map m) 1 0 2 rfl (by omega)
  have hsize := uintIn_headerBytes (headerOffsets.map m) 1 4 4 rfl (by omega)
  rw [pow_zero, Nat.div_one] at hmajor
  simp only [recognised, decide_eq_true_eq, hmagic, leBytes_eq_magic, pageOffset_header.1,
    pageOffset_header.2.2.1]
  exact and_congr_right fun _ => and_congr (by rw [headerAt, hmajor]; rfl)
    (by rw [headerAt, hsize]; rfl)

/-- A minor of this ABI major: its number and its body size. -/
structure PageABI where
  minor : UInt16
  bodySize : UInt32
  deriving DecidableEq, Repr

namespace PageABI

/-- The header line of a minor, word by word. -/
def headerWord (abi : PageABI) : ℕ → UInt64
  | 0 => magicWord
  | 8 => UInt64.ofNat (pageABIMajor + 2 ^ 16 * abi.minor.toNat + 2 ^ 32 * pageHeaderSize)
  | 16 => UInt64.ofNat abi.bodySize.toNat
  | _ => 0

variable (abi : PageABI)

theorem headerWord_eight :
    (abi.headerWord 8).toNat = 1 + 2 ^ 16 * abi.minor.toNat + 2 ^ 32 * 192 := by
  have hm : abi.minor.toNat < 2 ^ 16 := abi.minor.toNat_lt
  have h : (abi.headerWord 8).toNat =
      (1 + 2 ^ 16 * abi.minor.toNat + 2 ^ 32 * 192) % 2 ^ 64 := UInt64.toNat_ofNat'
  rw [h]
  omega

theorem headerWord_sixteen : (abi.headerWord 16).toNat = abi.bodySize.toNat := by
  have hb : abi.bodySize.toNat < 2 ^ 32 := abi.bodySize.toNat_lt
  have h : (abi.headerWord 16).toNat = abi.bodySize.toNat % 2 ^ 64 := UInt64.toNat_ofNat'
  rw [h]
  omega

end PageABI

/-- The minor of this release. -/
def pageABI : PageABI := ⟨UInt16.ofNat pageABIMinor, UInt32.ofNat pageBodySize⟩

/-- `Resume` by a writer of any minor of this major. -/
def PageWriter.resumeAs (abi : PageABI) (w : PageWriter) : WriterProgram :=
  w.resumeWith (.ok abi.headerWord) abi.bodySize.toNat

theorem encodeHeader_ok : encodeHeader = .ok (pageOf headerSnapshot) :=
  encodePage_of_checks (by decide +kernel) (by decide +kernel)

theorem encodeHeader_words :
    ∀ off ∈ headerOffsets, wordAt (pageOf headerSnapshot) off = pageABI.headerWord off := by
  decide +kernel

theorem mem_headerOrder {shrinks : Bool} {off : ℕ} :
    off ∈ headerOrder shrinks ↔ off ∈ headerOffsets := by
  rw [headerOffsets_eq]
  cases shrinks <;> simp only [headerOrder_false, headerOrder_true, List.mem_cons,
    List.not_mem_nil, or_false] <;> omega

/-- The `Resume` of this release is the one of its minor. -/
theorem PageWriter.resume_eq (w : PageWriter) : w.resume = w.resumeAs pageABI := by
  have hsize : pageABI.bodySize.toNat = pageBodySize := by decide +kernel
  have hstores (shrinks : Bool) :
      (headerOrder shrinks).map (fun off => (off, wordAt (pageOf headerSnapshot) off)) =
        (headerOrder shrinks).map (fun off => (off, pageABI.headerWord off)) := by
    apply List.map_congr_left
    intro off hoff
    rw [encodeHeader_words off (mem_headerOrder.mp hoff)]
  rw [resume, resumeAs, hsize, encodeHeader_ok]
  simp only [Except.map, resumeWith, hstores]

section Stores

variable {m m' : PageWords} {abi : PageABI} {off : ℕ}

theorem recognised_congr (h₀ : m' 0 = m 0) (h₈ : m' 8 = m 8) :
    recognised (headerAt m') = recognised (headerAt m) := by
  rw [Bool.eq_iff_iff, recognised_iff, recognised_iff, h₀, h₈]

/-- A header whose magic and word 8 are some minor's is recognised. -/
theorem recognised_of_words (abi : PageABI) (h₀ : m 0 = magicWord) (h₈ : m 8 = abi.headerWord 8) :
    recognised (headerAt m) = true := by
  have hm : abi.minor.toNat < 2 ^ 16 := abi.minor.toNat_lt
  rw [recognised_iff, h₀, h₈, abi.headerWord_eight]
  exact ⟨rfl, by omega, by omega⟩

/-- A header store of any minor keeps a recognised header recognised. -/
theorem recognised_update (h : recognised (headerAt m) = true) :
    recognised (headerAt (Function.update m off (abi.headerWord off))) = true := by
  have hm : abi.minor.toNat < 2 ^ 16 := abi.minor.toNat_lt
  rw [recognised_iff] at h ⊢
  by_cases h₀ : off = 0
  · subst h₀
    exact ⟨Function.update_self _ _ _, h.2⟩
  · by_cases h₈ : off = 8
    · subst h₈
      rw [Function.update_self, Function.update_of_ne (by decide), abi.headerWord_eight]
      exact ⟨h.1, by omega, by omega⟩
    · rw [Function.update_of_ne (Ne.symm h₀), Function.update_of_ne (Ne.symm h₈)]
      exact h

/-- After all the header stores of a minor the header is recognised. -/
theorem recognised_applyStores (shrinks : Bool) : recognised (headerAt (applyStores m
    ((headerOrder shrinks).map (fun off => (off, abi.headerWord off))))) = true := by
  apply recognised_of_words abi <;>
    cases shrinks <;> simp [headerOrder_false, headerOrder_true] <;> rfl

end Stores

end K3smApis.Budget
