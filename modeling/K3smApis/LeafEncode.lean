import K3smApis.AnnotationTypes
import K3smApis.ObservationValidate
import K3smApis.DnsName

/-!
# Leaves and fields as they are encoded

One rule for each leaf type of the annotation payloads, and one for each way a field can be
left out. With the rules of `GoJsonEncode` they give the encoding of every struct.
-/
namespace K3smApis.Budget
open GoJson Json

instance (s : GoString) : Decidable (Plain s) := List.decidableBAll _ s

theorem written_leaf {l : Lexeme} {v : Json} (hv : v.lexemes = [l]) (h : l.Written) :
    v.Written := by
  rw [Json.Written, hv]
  simpa using h

theorem print_leaf {l : Lexeme} {v : Json} (hv : v.lexemes = [l]) : v.print = l.text := by
  rw [Json.print, hv]
  simp

/-- A 64-bit numeral has a sign and 19 digits at most. -/
theorem length_ofInt_le {n : ℤ} (hlo : -2 ^ 63 ≤ n) (hhi : n < 2 ^ 63) :
    (Decimal.ofInt n).length ≤ 20 := by
  have habs : n.natAbs < 10 ^ 19 := by omega
  have hdigits := Decimal.length_ofNat_le (k := 19) (by omega) habs
  unfold Decimal.ofInt
  split_ifs
  · rw [List.length_cons]
    omega
  · omega

theorem encodes_signedInt {α : Type} [DecidableEq α] {bits : ℕ} {toInt : α → ℤ} {ofInt : ℤ → α}
    {x : α} (hbits : bits ≤ 64) (hlo : -2 ^ (bits - 1) ≤ toInt x) (hhi : toInt x < 2 ^ (bits - 1))
    (hback : ofInt (toInt x) = x) : Encodes (signedInt bits toInt ofInt) x x 20 where
  written := written_leaf rfl ⟨toInt x, rfl⟩
  length := by
    have hpow : (2 : ℤ) ^ (bits - 1) ≤ 2 ^ 63 := pow_le_pow_right₀ (by norm_num) (by omega)
    rw [print_leaf rfl]
    exact length_ofInt_le (by omega) (by omega)
  reads := by
    show (Decimal.parseInt bits (Decimal.ofInt (toInt x))).map ofInt = some x
    rw [Decimal.parseInt_ofInt hlo hhi, Option.map_some, hback]

theorem encodes_int64 (x : Int64) : Encodes int64 x x 20 :=
  encodes_signedInt le_rfl x.le_toInt x.toInt_lt x.ofInt_toInt

theorem encodes_int32 (x : Int32) : Encodes int32 x x 20 :=
  encodes_signedInt (by omega) x.le_toInt x.toInt_lt x.ofInt_toInt

theorem encodes_bool (x : Bool) : Encodes bool x x 5 where
  written := written_leaf rfl trivial
  length := by cases x <;> decide
  reads := rfl

theorem encodes_text {α : Type} {toText : α → GoString} {ofText : GoString → α} {x : α}
    (hplain : Plain (toText x)) (hback : ofText (toText x) = x) :
    Encodes (text toText ofText) x x (quote (toText x)).length where
  written := written_leaf rfl hplain
  length := by rw [print_leaf rfl]; exact le_rfl
  reads := by
    show some (ofText (toText x)) = some x
    rw [hback]

theorem encodes_string {s : GoString} (h : Plain s) : Encodes string s s (6 * s.length + 2) :=
  (encodes_text h rfl).mono (length_quote_le h)

theorem plain_of_isDotted {v : GoString} (h : DnsName.IsDotted v) : Plain v := by
  have hall : (lit "." ++ DnsName.dashAlnum).all (fun b => 0x20 ≤ b ∧ b ≤ 0x7e) = true := by decide
  exact fun b hb => of_decide_eq_true (List.all_eq_true.mp hall b (h.bytes b hb))

/-- A name of labels and dots is written as it is. -/
theorem encodes_isDotted {v : GoString} (h : DnsName.IsDotted v) :
    Encodes string v v (v.length + 2) := by
  have hall : (lit "." ++ DnsName.dashAlnum).all (fun b => escape b = [b]) = true := by decide
  have hself : ∀ b ∈ v, escape b = [b] :=
    fun b hb => of_decide_eq_true (List.all_eq_true.mp hall b (h.bytes b hb))
  exact (encodes_text (plain_of_isDotted h) rfl).mono
    (length_quote_of_escape (plain_of_isDotted h) hself).le

/-- The spelling of every word is printable, and at most `n` bytes long in quotes. -/
def WordsFit (V : Type) [Vocabulary V] (n : ℕ) : Prop :=
  ∀ v ∈ (Vocabulary.words : List V), Plain (word v).text ∧ (quote (word v).text).length ≤ n

instance (V : Type) [Vocabulary V] (n : ℕ) : Decidable (WordsFit V n) :=
  List.decidableBAll _ _

theorem encodes_enum {V : Type} [Vocabulary V] {w : Wire V} {n : ℕ} (hw : Known w)
    (hfit : WordsFit V n) : Encodes enum w w n := by
  obtain ⟨v, rfl⟩ := hw
  obtain ⟨hplain, hlen⟩ := hfit v (Vocabulary.complete v)
  exact (encodes_text hplain rfl).mono hlen

/-- A known word of a producer vocabulary is kept by its decoder. -/
theorem encodes_openEnum {V : Type} [Vocabulary V] {unknown : V} {w : Wire V} {n : ℕ}
    (hw : Known w) (hfit : WordsFit V n) : Encodes (openEnum unknown) w w n := by
  obtain ⟨v, rfl⟩ := hw
  obtain ⟨hplain, hlen⟩ := hfit v (Vocabulary.complete v)
  refine ⟨written_leaf rfl hplain, by rw [print_leaf rfl]; exact hlen, ?_⟩
  show some (decodeOpenEnum unknown (word v).text) = some (word v)
  rw [decodeOpenEnum, if_neg fun h => Bool.false_ne_true (h.2.symm.trans (word_valid v))]

/-- A time is read back as its second, in the local zone. -/
theorem encodes_time {t : Time} (hset : t.isZero = false) (hyears : Rfc3339.InYears t.sec.toInt) :
    Encodes time t (Time.ofUnixLocal t.unix) 22 := by
  have hbytes := Rfc3339.format_subset hyears
  have hplain : Plain (Rfc3339.format t.sec.toInt) := by
    have hall : Plain Rfc3339.timestampBytes := by decide
    exact fun b hb => hall b (hbytes hb)
  have hself : ∀ b ∈ Rfc3339.format t.sec.toInt, escape b = [b] := by
    have hall : Rfc3339.timestampBytes.all (fun b => escape b = [b]) = true := by decide
    exact fun b hb => of_decide_eq_true (List.all_eq_true.mp hall b (hbytes hb))
  have hstr : time.encode t = .str (Rfc3339.format t.sec.toInt) := by
    show encodeTime t = _
    rw [encodeTime, if_neg (by simp [hset])]
  constructor
  · rw [hstr]
    exact written_leaf rfl hplain
  · rw [hstr, print_leaf rfl]
    show (quote _).length ≤ 22
    rw [length_quote_of_escape hplain hself, Rfc3339.length_format hyears]
  · rw [hstr]
    show parseTime _ = _
    rw [parseTime, Rfc3339.parse_format hyears, Option.map_some, Int64.ofInt_toInt]
    rfl

theorem field_never {α : Type} {t : GoType α} {x y : α} {n : ℕ} (h : Encodes t x y n) :
    FieldEncodes .never t x y n := h

theorem field_int32 (x : Int32) : FieldEncodes .empty int32 x x 20 := by
  unfold FieldEncodes
  split_ifs with h
  · exact of_decide_eq_true h
  · exact encodes_int32 x

theorem field_int64 (x : Int64) : FieldEncodes .empty int64 x x 20 := by
  unfold FieldEncodes
  split_ifs with h
  · exact of_decide_eq_true h
  · exact encodes_int64 x

theorem field_bool (x : Bool) : FieldEncodes .empty bool x x 5 := by
  cases x with
  | false => rfl
  | true => exact encodes_bool true

theorem field_string {s : GoString} {n : ℕ} (h : s = [] ∨ Plain s ∧ s.length ≤ n) :
    FieldEncodes .empty string s s (6 * n + 2) := by
  unfold FieldEncodes
  split_ifs with hempty
  · exact of_decide_eq_true hempty
  · obtain ⟨hplain, hlen⟩ := h.resolve_left fun hnil => hempty (decide_eq_true hnil)
    exact (encodes_string hplain).mono (by omega)

theorem text_eq_nil {V : Type} {w : Wire V} : w.text = [] ↔ w = default :=
  ⟨fun h => congrArg Wire.mk h, fun h => congrArg Wire.text h⟩

theorem field_enum {V : Type} [Vocabulary V] {w : Wire V} {n : ℕ} (hw : UnsetOrKnown w)
    (hfit : WordsFit V n) : FieldEncodes .empty enum w w n := by
  unfold FieldEncodes
  split_ifs with h
  · exact text_eq_nil.mp (of_decide_eq_true h)
  · refine encodes_enum (hw.resolve_left fun hnil => h ?_) hfit
    exact decide_eq_true (text_eq_nil.mpr hnil)

theorem field_openEnum {V : Type} [Vocabulary V] {unknown : V} {w : Wire V} {n : ℕ}
    (hw : UnsetOrKnown w) (hfit : WordsFit V n) : FieldEncodes .empty (openEnum unknown) w w n := by
  unfold FieldEncodes
  split_ifs with h
  · exact text_eq_nil.mp (of_decide_eq_true h)
  · refine encodes_openEnum (hw.resolve_left fun hnil => h ?_) hfit
    exact decide_eq_true (text_eq_nil.mpr hnil)

/-- A pointer is left out when it is nil. -/
theorem field_pointerMap {α : Type} {t : GoType α} {f : α → α} {x : Option α} {n : ℕ}
    (h : ∀ v ∈ x, Encodes t v (f v) n ∧ t.encode v ≠ .null) :
    FieldEncodes .empty (.ptr t) x (x.map f) n := by
  cases x with
  | none => rfl
  | some v => exact (h v rfl).1.pointer (h v rfl).2

theorem field_pointer {α : Type} {t : GoType α} {x : Option α} {n : ℕ}
    (h : ∀ v ∈ x, Encodes t v v n ∧ t.encode v ≠ .null) : FieldEncodes .empty (.ptr t) x x n := by
  simpa using field_pointerMap (f := id) h

theorem encode_struct_ne_null {S R : Type} {fs : Fields R} {e : S ≃ R} (x : S) :
    (GoType.struct fs e).encode x ≠ .null := by
  rw [GoType.encode]
  exact fun h => by cases h

theorem field_int64Ptr (x : Option Int64) : FieldEncodes .empty (.ptr int64) x x 20 :=
  field_pointer fun v _ => ⟨encodes_int64 v, fun h => by cases h⟩

theorem field_boolPtr (x : Option Bool) : FieldEncodes .empty (.ptr bool) x x 5 :=
  field_pointer fun v _ => ⟨encodes_bool v, fun h => by cases h⟩

/-- A value that `omitzero` leaves out is the zero value. -/
theorem field_zero {α : Type} {t : GoType α} {x : α} {n : ℕ} (ht : t.ZeroExact)
    (h : Encodes t x x n) : FieldEncodes .zero t x x n := by
  unfold FieldEncodes
  split_ifs with hz
  · exact t.eq_zero_of_isZero ht hz
  · exact h

/-- The rule for a struct within a bound. -/
theorem encodes_struct {S R : Type} {fs : Fields R} {e : S ≃ R} {x y : S} {m : ℕ} (ns : List ℕ)
    (hnames : fs.names.Nodup) (hplain : ∀ n ∈ fs.names, Plain n)
    (hlen : ns.length = fs.names.length) (hm : membersSize fs.names ns + 2 ≤ m)
    (h : fs.Encodes (e x) (e y) ns) : Encodes (.struct fs e) x y m :=
  (Encodes.struct ns hnames hplain hlen h).mono hm

/-- A slice is left out when it has no element, and is nil then. -/
theorem field_slice {α : Type} {t : GoType α} {xs : Slice α} {ys : List α} {n : ℕ}
    (h : List.Forall₂ (fun x y => Encodes t x y n) xs.list ys) {m : ℕ} (hm : xs.list.length ≤ m) :
    FieldEncodes .empty (.slice t) xs (appended ys) (m * (n + 1) + 2) := by
  have hnone : ∀ {ys : List α}, List.Forall₂ (fun x y => Encodes t x y n) [] ys →
      appended ys = none := by
    intro ys h
    cases h
    rfl
  cases xs with
  | none => exact hnone h
  | some l =>
    cases l with
    | nil => exact hnone h
    | cons x l =>
      cases h with
      | cons hx hl =>
        show Encodes (.slice t) (some (x :: l)) (some _) _
        refine (Encodes.elements (.cons hx hl)).mono ?_
        exact Nat.add_le_add_right (Nat.mul_le_mul_right _ hm) 2

/-- A slice whose elements are read back as they are. -/
theorem field_slice_self {α : Type} {t : GoType α} {xs : Slice α} {n m : ℕ}
    (h : ∀ x ∈ xs.list, Encodes t x x n) (hm : xs.list.length ≤ m) :
    FieldEncodes .empty (.slice t) xs (appended xs.list) (m * (n + 1) + 2) :=
  field_slice (List.forall₂_same.mpr h) hm

end K3smApis.Budget
