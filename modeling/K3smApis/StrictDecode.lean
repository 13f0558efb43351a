import K3smApis.DuplicateKeys

/-!
# The strict decoder

What `decodeBudgetAnnotation` accepts. The key walk refuses exactly the values in which an
object that maps to a struct has a key that is not a field name, and on what the two walks
leave encoding/json decodes as a decoder does that knows no folding and no order.
-/
namespace K3smApis.Budget
open Check GoJson Json

theorem numbersFit_arr {vs : List Json} : NumbersFit (.arr vs) ↔ ∀ v ∈ vs, NumbersFit v := by
  simp only [NumbersFit, tokens_arr, List.mem_cons, List.mem_append, List.mem_flatMap]
  constructor
  · intro h v hv l hl
    exact h l (.inr (.inl ⟨v, hv, hl⟩))
  · rintro h l (rfl | ⟨v, hv, hl⟩ | rfl | hl)
    · rfl
    · exact h v hv l hl
    · rfl
    · cases hl

theorem numbersFit_obj {ms : List (GoString × Json)} :
    NumbersFit (.obj ms) ↔ ∀ m ∈ ms, NumbersFit m.2 := by
  simp only [NumbersFit, tokens_obj, List.mem_cons, List.mem_append, List.mem_flatMap]
  constructor
  · intro h m hm l hl
    exact h l (.inr (.inl ⟨m, hm, .inr hl⟩))
  · rintro h l (rfl | ⟨m, hm, rfl | hl⟩ | rfl | hl)
    · rfl
    · rfl
    · exact h m hm l hl
    · rfl
    · cases hl

theorem forEachIndexed_ok {check : ℕ → Json → Check} {P : Json → Prop} {vs : List Json}
    (h : ∀ i, ∀ v ∈ vs, check i v = .ok () ↔ P v) (i : ℕ) :
    forEachIndexed check i vs = .ok () ↔ ∀ v ∈ vs, P v := by
  induction vs generalizing i with
  | nil => simp [forEachIndexed]
  | cons v vs ih =>
    rw [forEachIndexed, except_bind_ok, List.forall_mem_cons, Unique.exists_iff,
      PUnit.default_eq_unit, h i v (List.mem_cons_self ..),
      ih (fun j w hw => h j w (List.mem_cons_of_mem _ hw))]

mutual

/-- The key walk accepts exactly the values with exact keys. -/
theorem checkExactKeys_ok : {α : Type} → (t : GoType α) → (path : Msg) → (v : Json) →
    (checkExactKeys t path v = .ok () ↔ t.ExactKeys v)
  | _, .leaf _, _, _ => by simp only [checkExactKeys, GoType.ExactKeys]
  | _, .stringMap, _, _ => by simp only [checkExactKeys, GoType.ExactKeys]
  | _, .ptr t, path, v => by
    simp only [checkExactKeys, GoType.ExactKeys]
    exact checkExactKeys_ok t path v
  | _, .slice t, path, v => by
    cases v with
    | arr vs =>
      simp only [checkExactKeys, GoType.ExactKeys]
      exact forEachIndexed_ok (fun i w _ => checkExactKeys_ok t _ w) 0
    | null | bool | num | str | obj => simp only [checkExactKeys, GoType.ExactKeys]
  | _, .struct fs e, path, v => by
    cases v with
    | obj ms =>
      simp only [checkExactKeys, GoType.ExactKeys, forEach_ok]
      exact forall₂_congr (fun m _ => checkExactMember_ok fs path m)
    | null | bool | num | str | arr => simp only [checkExactKeys, GoType.ExactKeys]

theorem checkExactMember_ok : {R : Type} → (fs : Fields R) → (path : Msg) →
    (m : GoString × Json) → (checkExactMember fs path m = .ok () ↔ fs.ExactMember m)
  | _, .nil, _, _ => by simp [checkExactMember, Fields.ExactMember]
  | _, .field name _ t fs, path, m => by
    rw [checkExactMember, Fields.ExactMember]
    split_ifs
    · exact checkExactKeys_ok t _ m.2
    · exact checkExactMember_ok fs path m
  | _, .embed es _ fs, path, m => by
    rw [checkExactMember, Fields.ExactMember]
    split_ifs
    · exact checkExactMember_ok es path m
    · exact checkExactMember_ok fs path m

end

@[simp] theorem orInvalid_ok {α : Type} {o : Option α} {a : α} :
    orInvalid o = .ok a ↔ o = some a := by
  cases o <;> simp [orInvalid]

/-- Only the number 1 is written as 1. -/
theorem print_eq_one {v : Json} : v.print = [0x31] ↔ v = .num [0x31] := by
  have hopen : ∀ {l : Lexeme} {ls : List Lexeme}, l = .openArr ∨ l = .openObj →
      v.lexemes = l :: ls → v.print ≠ [0x31] := by
    rintro l ls hl hls h
    rw [print, hls, List.flatMap_cons] at h
    -- the opening bracket is the whole text, and it is not a digit
    rcases hl with rfl | rfl <;>
    · rw [List.append_eq_singleton_iff] at h
      rcases h with ⟨h, -⟩ | ⟨h, -⟩ <;> exact absurd h (by decide)
  constructor
  · intro h
    cases v with
    | num t => simpa [print, lexemes, Lexeme.text] using h
    | null => exact absurd h (by decide)
    | bool b => cases b <;> exact absurd h (by decide)
    | str s => simp [print, lexemes, Lexeme.text, quote] at h
    | arr vs => cases vs <;> exact absurd h (hopen (.inl rfl) rfl)
    | obj ms => cases ms <;> exact absurd h (hopen (.inr rfl) rfl)
  · rintro rfl
    rfl

/-- The raw schema passes exactly when it is the number 1. -/
theorem checkSchema_ok {raw : GoString} {schema : Option Json} :
    checkSchema raw schema = .ok () ↔ schema = some (.num [0x31]) := by
  have hone : Decimal.ofInt budgetAnnotationSchema.toInt = [0x31] := by decide
  rcases schema with _ | v
  · simp [checkSchema]
  · cases v with
    | null => simp [checkSchema]
    | bool | num | str | arr | obj =>
      rw [checkSchema, refuseIf_ok, hone, not_not, print_eq_one, Option.some.injEq]
      exact fun h => by cases h

/-- The value a text is one of is the value it starts with. -/
theorem firstValue_of_parse {value : GoString} {v : Json} (h : Json.parse value = some v) :
    firstValue value = some (v, []) := by
  unfold Json.parse at h
  unfold firstValue
  cases hlex : lex value with
  | none => simp [hlex] at h
  | some ls =>
    rw [hlex] at h
    cases hread : readValue ls.length ls with
    | none => simp [hread] at h
    | some p =>
      obtain ⟨w, rest⟩ := p
      simp_all

theorem genericValue_eq_some {value : GoString} {v w : Json} (h : Json.parse value = some v) :
    genericValue value = some w ↔ w = v ∧ NumbersFit v := by
  have hall : v.lexemes.all numberFits = true ↔ NumbersFit v := by
    rw [List.all_eq_true, NumbersFit]
    constructor
    · intro hl l hmem
      exact hl l (List.mem_of_mem_filter hmem)
    · intro hl l hmem
      by_cases hsep : l = .comma ∨ l = .colon
      · rcases hsep with rfl | rfl <;> rfl
      · exact hl l (List.mem_filter.mpr ⟨hmem, by simpa [not_or] using hsep⟩)
  rw [genericValue, h, Option.filter_some, ← hall]
  split_ifs with hfits <;> simp [hfits, eq_comm]

/-- The texts the strict decoder accepts, and what it makes of them. -/
theorem decodeBudgetAnnotation_ok {α : Type} {t : GoType α} {value : GoString} {x : α} :
    decodeBudgetAnnotation t value = .ok x ↔
      value.length ≤ maxBudgetAnnotationBytes ∧ ∃ v, lex value = some v.lexemes ∧
        probeSchema v = some (some (.num [0x31])) ∧ t.decode foldName t.zero v = some x ∧
        v.KeysDistinct ∧ NumbersFit v ∧ t.ExactKeys v := by
  unfold decodeBudgetAnnotation
  rw [except_bind_ok, Unique.exists_iff, PUnit.default_eq_unit, refuseIf_ok, not_lt]
  refine and_congr_right (fun _ => ?_)
  cases hparse : Json.parse value with
  | none =>
    have hnone : ∀ v : Json, lex value ≠ some v.lexemes := by
      intro v hv
      rw [← Json.parse_eq_some, hparse] at hv
      cases hv
    simp [orInvalid, bind, Except.bind, hnone]
  | some v =>
    have hlex := Json.parse_eq_some.mp hparse
    have hv : ∀ {P : Json → Prop}, (∃ w, lex value = some w.lexemes ∧ P w) ↔ P v := by
      intro P
      constructor
      · rintro ⟨w, hw, hP⟩
        rw [← Json.parse_eq_some, hparse] at hw
        cases hw
        exact hP
      · exact fun hP => ⟨v, hlex, hP⟩
    rw [hv]
    simp only [except_bind_ok, orInvalid_ok, Option.bind_some, firstValue_of_parse hparse, hlex,
      Option.some.injEq, exists_eq_left', Unique.exists_iff, PUnit.default_eq_unit, checkSchema_ok,
      wrapped_ok, checkDuplicateKeys_ok, refuseIf_ok, checkExactKeys_ok,
      genericValue_eq_some hparse]
    constructor
    · rintro ⟨_, hprobe, rfl, y, hy, -, ⟨hkeys, hfit⟩, _, ⟨rfl, -⟩, hexact, h⟩
      cases h
      exact ⟨hprobe, hy, hkeys, hfit, hexact⟩
    · rintro ⟨hprobe, hx, hkeys, hfit, hexact⟩
      exact ⟨_, hprobe, rfl, x, hx, by simp, ⟨hkeys, hfit⟩, v, ⟨rfl, hfit⟩, hexact, rfl⟩

/-- What is accepted has exact keys, none of them twice, and is decoded as the reference
decoder decodes it. -/
theorem decodeBudgetAnnotation_exact {α : Type} {t : GoType α} (hnames : t.NamesDistinct)
    {value : GoString} {x : α} (h : decodeBudgetAnnotation t value = .ok x) :
    ∃ v, lex value = some v.lexemes ∧ v.KeysDistinct ∧ t.ExactKeys v ∧ t.refDecode v = some x := by
  obtain ⟨-, v, hlex, -, hx, hkeys, -, hexact⟩ := decodeBudgetAnnotation_ok.mp h
  exact ⟨v, hlex, hkeys, hexact, t.decode_eq_refDecode hnames hkeys hexact ▸ hx⟩

theorem NodeBudgetReport.namesDistinct : NodeBudgetReport.goType.NamesDistinct := by
  decide +kernel

theorem NodeBudgetDesiredPolicy.namesDistinct : NodeBudgetDesiredPolicy.goType.NamesDistinct := by
  decide +kernel

/-- Folding and last-wins never reach the decoded value: a text accepted into either payload
is one JSON value, no object of it at any depth repeats a key, every object that maps to a
struct has exact field names only, and the result is the reference decoder's. -/
theorem decodeBudgetAnnotation_strict (value : GoString) :
    (∀ r, decodeBudgetAnnotation NodeBudgetReport.goType value = .ok r →
      ∃ v, lex value = some v.lexemes ∧ v.KeysDistinct ∧ NodeBudgetReport.goType.ExactKeys v ∧
        NodeBudgetReport.goType.refDecode v = some r) ∧
    (∀ d, decodeBudgetAnnotation NodeBudgetDesiredPolicy.goType value = .ok d →
      ∃ v, lex value = some v.lexemes ∧ v.KeysDistinct ∧
        NodeBudgetDesiredPolicy.goType.ExactKeys v ∧
        NodeBudgetDesiredPolicy.goType.refDecode v = some d) :=
  ⟨fun _ h => decodeBudgetAnnotation_exact NodeBudgetReport.namesDistinct h,
    fun _ h => decodeBudgetAnnotation_exact NodeBudgetDesiredPolicy.namesDistinct h⟩

/-- A report with two signals. -/
def signalsText : GoString :=
  lit ("\x7b\"schema\":1,\"signals\":[\x7b\"id\":\"memory.available\",\"unit\":\"bytes\"," ++
    "\"value\":7\x7d,\x7b\"id\":\"memory.swap\",\"unit\":\"bytes\"\x7d]\x7d")

def signalsReport : NodeBudgetReport where
  schema := 1
  observation := { signals := some [
    { id := word .memoryAvailable, unit := word .bytes, value := some 7 },
    { id := word .memorySwap, unit := word .bytes }] }

/-- A policy with two thresholds. -/
def thresholdsText : GoString :=
  lit ("\x7b\"schema\":1,\"name\":\"lab\",\"resourceVersion\":\"7\"," ++
    "\"spec\":\x7b\"thresholds\":[" ++
    "\x7b\"signal\":\"memory.available\",\"warnThreshold\":5\x7d," ++
    "\x7b\"signal\":\"memory.swap\"\x7d]\x7d\x7d")

def thresholdsPolicy : NodeBudgetDesiredPolicy where
  schema := 1
  name := lit "lab"
  resourceVersion := lit "7"
  spec := { thresholds := some [{ signal := word .memoryAvailable, warnThreshold := some 5 },
    { signal := word .memorySwap }] }

theorem decodeBudgetAnnotation_strict_nested :
    (∃ v, lex signalsText = some v.lexemes ∧ v.KeysDistinct ∧
      NodeBudgetReport.goType.ExactKeys v ∧
      NodeBudgetReport.goType.refDecode v = some signalsReport) ∧
    ∃ v, lex thresholdsText = some v.lexemes ∧ v.KeysDistinct ∧
      NodeBudgetDesiredPolicy.goType.ExactKeys v ∧
      NodeBudgetDesiredPolicy.goType.refDecode v = some thresholdsPolicy := by
  have hreport : decodeBudgetAnnotation NodeBudgetReport.goType signalsText =
      .ok signalsReport := by decide +kernel
  have hpolicy : decodeBudgetAnnotation NodeBudgetDesiredPolicy.goType thresholdsText =
      .ok thresholdsPolicy := by decide +kernel
  exact ⟨(decodeBudgetAnnotation_strict signalsText).1 _ hreport,
    (decodeBudgetAnnotation_strict thresholdsText).2 _ hpolicy⟩

end K3smApis.Budget
