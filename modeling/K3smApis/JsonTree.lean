import K3smApis.JsonText

/-!
# JSON values

A value as it is written: an object keeps the order of its members and every
repetition of a key, a number keeps its text. The reader accepts exactly the lexemes
of a value, and what an encoder prints is read back.
-/
namespace K3smApis

inductive Json where
  | null
  | bool (b : Bool)
  | num (text : GoString)
  | str (s : GoString)
  | arr (vs : List Json)
  | obj (ms : List (GoString × Json))

namespace Json

@[elab_as_elim, induction_eliminator]
theorem induct {P : Json → Prop} (null : P .null) (bool : ∀ b, P (.bool b))
    (num : ∀ t, P (.num t)) (str : ∀ s, P (.str s))
    (arr : ∀ vs, (∀ v ∈ vs, P v) → P (.arr vs))
    (obj : ∀ ms : List (GoString × Json), (∀ m ∈ ms, P m.2) → P (.obj ms)) (v : Json) : P v :=
  @Json.rec P (fun vs => ∀ v ∈ vs, P v) (fun ms => ∀ m ∈ ms, P m.2) (fun m => P m.2)
    null bool num str arr obj (by simp) (fun _ _ hv hvs => List.forall_mem_cons.mpr ⟨hv, hvs⟩)
    (by simp) (fun _ _ hm hms => List.forall_mem_cons.mpr ⟨hm, hms⟩) (fun _ _ hv => hv) v

/-- No object at any depth repeats a key. -/
inductive KeysDistinct : Json → Prop where
  | null : KeysDistinct .null
  | bool (b : Bool) : KeysDistinct (.bool b)
  | num (t : GoString) : KeysDistinct (.num t)
  | str (s : GoString) : KeysDistinct (.str s)
  | arr {vs : List Json} (h : ∀ v ∈ vs, KeysDistinct v) : KeysDistinct (.arr vs)
  | obj {ms : List (GoString × Json)} (hkeys : (ms.map Prod.fst).Nodup)
      (h : ∀ m ∈ ms, KeysDistinct m.2) : KeysDistinct (.obj ms)

mutual

def lexemes : Json → List Lexeme
  | .null => [.null]
  | .bool b => [.bool b]
  | .num t => [.num t]
  | .str s => [.str s]
  | .arr [] => [.openArr, .closeArr]
  | .arr (v :: vs) => .openArr :: (lexemes v ++ elementLexemes vs)
  | .obj [] => [.openObj, .closeObj]
  | .obj (m :: ms) => .openObj :: .str m.1 :: .colon :: (lexemes m.2 ++ memberLexemes ms)

/-- The elements after the first, and the closing bracket. -/
def elementLexemes : List Json → List Lexeme
  | [] => [.closeArr]
  | v :: vs => .comma :: (lexemes v ++ elementLexemes vs)

/-- The members after the first, and the closing brace. -/
def memberLexemes : List (GoString × Json) → List Lexeme
  | [] => [.closeObj]
  | m :: ms => .comma :: .str m.1 :: .colon :: (lexemes m.2 ++ memberLexemes ms)

end

/-- A value as `json.Marshal` writes it. -/
def print (v : Json) : GoString := v.lexemes.flatMap Lexeme.text

/-- The key and the colon a member starts with. -/
def readKey : List Lexeme → Option (GoString × List Lexeme)
  | .str k :: .colon :: ls => some (k, ls)
  | _ => none

mutual

/-- The value some lexemes start with, and the lexemes after it. Each call takes one
lexeme at least, so their number is enough fuel. -/
def readValue : ℕ → List Lexeme → Option (Json × List Lexeme)
  | 0, _ => none
  | _ + 1, .null :: ls => some (.null, ls)
  | _ + 1, .bool b :: ls => some (.bool b, ls)
  | _ + 1, .num t :: ls => some (.num t, ls)
  | _ + 1, .str s :: ls => some (.str s, ls)
  | fuel + 1, .openArr :: ls =>
    if ls.head? = some .closeArr then some (.arr [], ls.tail)
    else do
      let (v, ls) ← readValue fuel ls
      let (vs, ls) ← readElements fuel ls
      some (.arr (v :: vs), ls)
  | fuel + 1, .openObj :: ls =>
    if ls.head? = some .closeObj then some (.obj [], ls.tail)
    else do
      let (k, ls) ← readKey ls
      let (v, ls) ← readValue fuel ls
      let (ms, ls) ← readMembers fuel ls
      some (.obj ((k, v) :: ms), ls)
  | _ + 1, _ => none

def readElements : ℕ → List Lexeme → Option (List Json × List Lexeme)
  | _ + 1, .closeArr :: ls => some ([], ls)
  | fuel + 1, .comma :: ls => do
    let (v, ls) ← readValue fuel ls
    let (vs, ls) ← readElements fuel ls
    some (v :: vs, ls)
  | _, _ => none

def readMembers : ℕ → List Lexeme → Option (List (GoString × Json) × List Lexeme)
  | _ + 1, .closeObj :: ls => some ([], ls)
  | fuel + 1, .comma :: ls => do
    let (k, ls) ← readKey ls
    let (v, ls) ← readValue fuel ls
    let (ms, ls) ← readMembers fuel ls
    some ((k, v) :: ms, ls)
  | _, _ => none

end

/-- The one value a text holds. -/
def parse (t : GoString) : Option Json := do
  let ls ← lex t
  let (v, rest) ← readValue ls.length ls
  if rest = [] then some v else none

theorem readKey_some {ls rest : List Lexeme} {k : GoString} :
    readKey ls = some (k, rest) ↔ ls = .str k :: .colon :: rest := by
  constructor
  · intro h
    unfold readKey at h
    split at h
    · simp only [Option.some.injEq, Prod.mk.injEq] at h
      obtain ⟨rfl, rfl⟩ := h
      rfl
    · cases h
  · rintro rfl
    rfl

theorem eq_cons_of_head? {ls : List Lexeme} {l : Lexeme} (h : ls.head? = some l) :
    ls = l :: ls.tail := by
  obtain ⟨t, rfl⟩ := List.head?_eq_some_iff.mp h
  rfl

/-- What is read is what stands at the front. -/
theorem read_sound (fuel : ℕ) :
    (∀ ls v rest, readValue fuel ls = some (v, rest) → ls = v.lexemes ++ rest) ∧
    (∀ ls vs rest, readElements fuel ls = some (vs, rest) → ls = elementLexemes vs ++ rest) ∧
    ∀ ls ms rest, readMembers fuel ls = some (ms, rest) → ls = memberLexemes ms ++ rest := by
  induction fuel with
  | zero =>
    refine ⟨?_, ?_, ?_⟩ <;> intro ls v rest h <;>
      simp [readValue, readElements, readMembers] at h
  | succ fuel ih =>
    obtain ⟨hvalue, helements, hmembers⟩ := ih
    refine ⟨?_, ?_, ?_⟩
    · intro ls v rest h
      rcases ls with - | ⟨l, ls⟩
      · simp [readValue] at h
      cases l with
      | null | bool | num | str =>
        simp only [readValue, Option.some.injEq, Prod.mk.injEq] at h
        obtain ⟨rfl, rfl⟩ := h
        simp [lexemes]
      | openArr =>
        by_cases hclose : ls.head? = some .closeArr
        · simp only [readValue, if_pos hclose, Option.some.injEq, Prod.mk.injEq] at h
          obtain ⟨rfl, rfl⟩ := h
          simpa [lexemes] using eq_cons_of_head? hclose
        · simp only [readValue, if_neg hclose, Option.bind_eq_bind, Option.bind_eq_some_iff,
            Prod.exists, Option.some.injEq, Prod.mk.injEq] at h
          obtain ⟨w, ls1, hw, vs, ls2, hvs, rfl, rfl⟩ := h
          rw [hvalue _ _ _ hw, helements _ _ _ hvs]
          simp [lexemes]
      | openObj =>
        by_cases hclose : ls.head? = some .closeObj
        · simp only [readValue, if_pos hclose, Option.some.injEq, Prod.mk.injEq] at h
          obtain ⟨rfl, rfl⟩ := h
          simpa [lexemes] using eq_cons_of_head? hclose
        · simp only [readValue, if_neg hclose, Option.bind_eq_bind, Option.bind_eq_some_iff,
            Prod.exists, Option.some.injEq, Prod.mk.injEq] at h
          obtain ⟨k, ls1, hk, w, ls2, hw, ms, ls3, hms, rfl, rfl⟩ := h
          rw [readKey_some.mp hk, hvalue _ _ _ hw, hmembers _ _ _ hms]
          simp [lexemes]
      | closeArr | closeObj | comma | colon => simp [readValue] at h
    · intro ls vs rest h
      rcases ls with - | ⟨l, ls⟩
      · simp [readElements] at h
      cases l with
      | closeArr =>
        simp only [readElements, Option.some.injEq, Prod.mk.injEq] at h
        obtain ⟨rfl, rfl⟩ := h
        simp [elementLexemes]
      | comma =>
        simp only [readElements, Option.bind_eq_bind, Option.bind_eq_some_iff,
          Prod.exists, Option.some.injEq, Prod.mk.injEq] at h
        obtain ⟨w, ls1, hw, vs, ls2, hvs, rfl, rfl⟩ := h
        rw [hvalue _ _ _ hw, helements _ _ _ hvs]
        simp [elementLexemes]
      | null | bool | num | str | openArr | openObj | closeObj | colon => simp [readElements] at h
    · intro ls ms rest h
      rcases ls with - | ⟨l, ls⟩
      · simp [readMembers] at h
      cases l with
      | closeObj =>
        simp only [readMembers, Option.some.injEq, Prod.mk.injEq] at h
        obtain ⟨rfl, rfl⟩ := h
        simp [memberLexemes]
      | comma =>
        simp only [readMembers, Option.bind_eq_bind, Option.bind_eq_some_iff,
          Prod.exists, Option.some.injEq, Prod.mk.injEq] at h
        obtain ⟨k, ls1, hk, w, ls2, hw, ms, ls3, hms, rfl, rfl⟩ := h
        rw [readKey_some.mp hk, hvalue _ _ _ hw, hmembers _ _ _ hms]
        simp [memberLexemes]
      | null | bool | num | str | openArr | openObj | closeArr | colon => simp [readMembers] at h

/-- No value starts with a closing bracket or brace. -/
theorem exists_lexemes (v : Json) :
    ∃ l ls, v.lexemes = l :: ls ∧ l ≠ .closeArr ∧ l ≠ .closeObj ∧ l ≠ .comma := by
  cases v with
  | null | bool | num | str => simp [lexemes]
  | arr vs => cases vs <;> simp [lexemes]
  | obj ms => cases ms <;> simp [lexemes]

/-- The lexemes of a value are read as that value. -/
def Reads (v : Json) : Prop :=
  ∀ fuel rest, v.lexemes.length ≤ fuel → readValue fuel (v.lexemes ++ rest) = some (v, rest)

theorem readElements_complete {vs : List Json} (h : ∀ v ∈ vs, Reads v) :
    ∀ fuel rest, (elementLexemes vs).length ≤ fuel →
      readElements fuel (elementLexemes vs ++ rest) = some (vs, rest) := by
  induction vs with
  | nil =>
    intro fuel rest hfuel
    obtain ⟨fuel, rfl⟩ := Nat.exists_eq_add_of_le' hfuel
    rfl
  | cons v vs ih =>
    obtain ⟨hv, hvs⟩ := List.forall_mem_cons.mp h
    intro fuel rest hfuel
    simp only [elementLexemes, List.length_cons, List.length_append] at hfuel
    obtain ⟨fuel, rfl⟩ := Nat.exists_eq_add_of_le' (Nat.le_of_add_left_le hfuel)
    simp only [elementLexemes, List.cons_append, List.append_assoc, readElements,
      hv fuel _ (by omega), ih hvs fuel rest (by omega), Option.bind_eq_bind, Option.bind_some]

theorem readMembers_complete {ms : List (GoString × Json)} (h : ∀ m ∈ ms, Reads m.2) :
    ∀ fuel rest, (memberLexemes ms).length ≤ fuel →
      readMembers fuel (memberLexemes ms ++ rest) = some (ms, rest) := by
  induction ms with
  | nil =>
    intro fuel rest hfuel
    obtain ⟨fuel, rfl⟩ := Nat.exists_eq_add_of_le' hfuel
    rfl
  | cons m ms ih =>
    obtain ⟨hm, hms⟩ := List.forall_mem_cons.mp h
    intro fuel rest hfuel
    simp only [memberLexemes, List.length_cons, List.length_append] at hfuel
    obtain ⟨fuel, rfl⟩ := Nat.exists_eq_add_of_le' (show 1 ≤ fuel by omega)
    simp only [memberLexemes, List.cons_append, List.append_assoc, readMembers, readKey,
      hm fuel _ (by omega), ih hms fuel rest (by omega), Option.bind_eq_bind, Option.bind_some]

theorem readValue_complete (v : Json) : Reads v := by
  induction v with
  | null | bool | num | str =>
    intro fuel rest hfuel
    simp only [lexemes, List.length_singleton] at hfuel
    obtain ⟨fuel, rfl⟩ := Nat.exists_eq_add_of_le' hfuel
    rfl
  | arr vs ih =>
    intro fuel rest hfuel
    cases vs with
    | nil =>
      obtain ⟨fuel, rfl⟩ := Nat.exists_eq_add_of_le' (Nat.le_of_succ_le hfuel)
      rfl
    | cons v vs =>
      obtain ⟨hv, hvs⟩ := List.forall_mem_cons.mp ih
      simp only [lexemes, List.length_cons, List.length_append] at hfuel
      obtain ⟨fuel, rfl⟩ := Nat.exists_eq_add_of_le' (show 1 ≤ fuel by omega)
      obtain ⟨l, ls, hl, hclose, -, -⟩ := exists_lexemes v
      have hhead : (v.lexemes ++ (elementLexemes vs ++ rest)).head? ≠ some .closeArr := by
        simp [hl, hclose]
      simp only [lexemes, List.cons_append, List.append_assoc, readValue, if_neg hhead,
        hv fuel _ (by omega), readElements_complete hvs fuel rest (by omega),
        Option.bind_eq_bind, Option.bind_some]
  | obj ms ih =>
    intro fuel rest hfuel
    cases ms with
    | nil =>
      obtain ⟨fuel, rfl⟩ := Nat.exists_eq_add_of_le' (Nat.le_of_succ_le hfuel)
      rfl
    | cons m ms =>
      obtain ⟨hm, hms⟩ := List.forall_mem_cons.mp ih
      simp only [lexemes, List.length_cons, List.length_append] at hfuel
      obtain ⟨fuel, rfl⟩ := Nat.exists_eq_add_of_le' (show 1 ≤ fuel by omega)
      simp [lexemes, readValue, readKey, hm fuel _ (by omega : m.2.lexemes.length ≤ fuel),
        readMembers_complete hms fuel rest (by omega)]

/-- A text is read as a value exactly when its lexemes are that value's. -/
theorem parse_eq_some {t : GoString} {v : Json} : parse t = some v ↔ lex t = some v.lexemes := by
  constructor
  · intro h
    simp only [parse, Option.bind_eq_bind, Option.bind_eq_some_iff, Prod.exists] at h
    obtain ⟨ls, hls, w, rest, hread, hrest⟩ := h
    split_ifs at hrest with hnil
    · subst hnil
      cases hrest
      rw [hls, (read_sound _).1 _ _ _ hread, List.append_nil]
  · intro h
    have hread := readValue_complete v v.lexemes.length [] le_rfl
    rw [List.append_nil] at hread
    simp [parse, h, hread]

/-- The lexemes an encoder writes: integers and printable strings. -/
def Lexeme.Written : Lexeme → Prop
  | .num t => ∃ n : ℤ, t = Decimal.ofInt n
  | .str s => Plain s
  | _ => True

/-- Every lexeme of the value is one an encoder writes. -/
def Written (v : Json) : Prop := ∀ l ∈ v.lexemes, l.Written

theorem written_arr {vs : List Json} (h : ∀ v ∈ vs, v.Written) : (Json.arr vs).Written := by
  have helements : ∀ vs : List Json, (∀ v ∈ vs, v.Written) →
      ∀ l ∈ elementLexemes vs, l.Written := by
    intro vs hvs
    induction vs with
    | nil => simp [elementLexemes, Lexeme.Written]
    | cons v vs ih =>
      obtain ⟨hv, hrest⟩ := List.forall_mem_cons.mp hvs
      rw [elementLexemes]
      exact List.forall_mem_cons.mpr ⟨trivial, List.forall_mem_append.mpr ⟨hv, ih hrest⟩⟩
  cases vs with
  | nil => simp [Written, lexemes, Lexeme.Written]
  | cons v vs =>
    obtain ⟨hv, hrest⟩ := List.forall_mem_cons.mp h
    rw [Written, lexemes]
    exact List.forall_mem_cons.mpr ⟨trivial, List.forall_mem_append.mpr ⟨hv, helements vs hrest⟩⟩

theorem written_obj {ms : List (GoString × Json)} (h : ∀ m ∈ ms, Plain m.1 ∧ m.2.Written) :
    (Json.obj ms).Written := by
  have hmembers : ∀ ms : List (GoString × Json), (∀ m ∈ ms, Plain m.1 ∧ m.2.Written) →
      ∀ l ∈ memberLexemes ms, l.Written := by
    intro ms hms
    induction ms with
    | nil => simp [memberLexemes, Lexeme.Written]
    | cons m ms ih =>
      obtain ⟨hm, hrest⟩ := List.forall_mem_cons.mp hms
      rw [memberLexemes]
      exact List.forall_mem_cons.mpr ⟨trivial, List.forall_mem_cons.mpr ⟨hm.1,
        List.forall_mem_cons.mpr ⟨trivial, List.forall_mem_append.mpr ⟨hm.2, ih hrest⟩⟩⟩⟩
  cases ms with
  | nil => simp [Written, lexemes, Lexeme.Written]
  | cons m ms =>
    obtain ⟨hm, hrest⟩ := List.forall_mem_cons.mp h
    rw [Written, lexemes]
    exact List.forall_mem_cons.mpr ⟨trivial, List.forall_mem_cons.mpr ⟨hm.1,
      List.forall_mem_cons.mpr ⟨trivial, List.forall_mem_append.mpr ⟨hm.2, hmembers ms hrest⟩⟩⟩⟩

/-- The texts of some lexemes, in front of another text, are read as these lexemes. -/
def LexesTo (ls : List Lexeme) (t : GoString) : Prop :=
  lexFrom 0 (ls.flatMap Lexeme.text ++ t) = (lexFrom 0 t).map (ls ++ ·)

theorem LexesTo.append {a b : List Lexeme} {t : GoString}
    (ha : LexesTo a (b.flatMap Lexeme.text ++ t)) (hb : LexesTo b t) : LexesTo (a ++ b) t := by
  unfold LexesTo at *
  rw [List.flatMap_append, List.append_assoc, ha, hb, Option.map_map]
  simp [Function.comp_def]

theorem lexesTo_fixed {l : Lexeme} (h : l ∈ fixedLexemes) (t : GoString) : LexesTo [l] t := by
  rw [LexesTo, List.flatMap_singleton]
  exact lexFrom_fixed h t

theorem lexesTo_str {s : GoString} (h : Plain s) (t : GoString) : LexesTo [.str s] t := by
  rw [LexesTo, List.flatMap_singleton]
  exact lexFrom_str h t

/-- A separator or a closing lexeme ends a number. -/
theorem numberEnd_fixed {l : Lexeme} (h : l = .comma ∨ l = .closeArr ∨ l = .closeObj)
    (ls : List Lexeme) (t : GoString) : NumberEnd ((l :: ls).flatMap Lexeme.text ++ t) := by
  have hends : ∀ b : UInt8, b = 0x2c ∨ b = 0x5d ∨ b = 0x7d →
      Decimal.isDigit b = false ∧ b ≠ 0x2e ∧ b ≠ 0x65 ∧ b ≠ 0x45 := by
    rintro b (rfl | rfl | rfl) <;> decide
  rw [List.flatMap_cons, List.append_assoc]
  rcases h with rfl | rfl | rfl <;> intro b hb <;> cases hb <;> exact hends _ (by simp)

/-- The printed value is read back wherever a number may end. -/
def LexesBack (v : Json) : Prop := v.Written → ∀ t, NumberEnd t → LexesTo v.lexemes t

theorem LexesBack.elements {v : Json} {vs : List Json} {t : GoString} (hv : LexesBack v)
    (hw : v.Written) (hvs : LexesTo (elementLexemes vs) t) :
    LexesTo (v.lexemes ++ elementLexemes vs) t := by
  refine (hv hw _ ?_).append hvs
  cases vs with
  | nil => exact numberEnd_fixed (.inr (.inl rfl)) _ t
  | cons => exact numberEnd_fixed (.inl rfl) _ t

theorem LexesBack.members {k : GoString} {v : Json} {ms : List (GoString × Json)} {t : GoString}
    (hv : LexesBack v) (hk : Plain k) (hw : v.Written) (hms : LexesTo (memberLexemes ms) t) :
    LexesTo (.str k :: .colon :: (v.lexemes ++ memberLexemes ms)) t := by
  refine (lexesTo_str hk _).append ((lexesTo_fixed (by simp [fixedLexemes]) _).append
    ((hv hw _ ?_).append hms))
  cases ms with
  | nil => exact numberEnd_fixed (.inr (.inr rfl)) _ t
  | cons => exact numberEnd_fixed (.inl rfl) _ t

theorem elements_lexesBack {vs : List Json} (h : ∀ v ∈ vs, LexesBack v)
    (hw : ∀ l ∈ elementLexemes vs, l.Written) (t : GoString) : LexesTo (elementLexemes vs) t := by
  induction vs with
  | nil => exact lexesTo_fixed (by simp [fixedLexemes]) t
  | cons v vs ih =>
    obtain ⟨hv, hvs⟩ := List.forall_mem_cons.mp h
    simp only [elementLexemes, List.forall_mem_cons, List.forall_mem_append] at hw
    exact (lexesTo_fixed (by simp [fixedLexemes]) _).append (hv.elements hw.2.1 (ih hvs hw.2.2))

theorem members_lexesBack {ms : List (GoString × Json)} (h : ∀ m ∈ ms, LexesBack m.2)
    (hw : ∀ l ∈ memberLexemes ms, l.Written) (t : GoString) : LexesTo (memberLexemes ms) t := by
  induction ms with
  | nil => exact lexesTo_fixed (by simp [fixedLexemes]) t
  | cons m ms ih =>
    obtain ⟨hm, hms⟩ := List.forall_mem_cons.mp h
    simp only [memberLexemes, List.forall_mem_cons, List.forall_mem_append] at hw
    obtain ⟨-, hk, -, hwm, hwms⟩ := hw
    exact (lexesTo_fixed (by simp [fixedLexemes]) _).append (hm.members hk hwm (ih hms hwms))

theorem lexesBack (v : Json) : LexesBack v := by
  induction v with
  | null => exact fun _ t _ => lexesTo_fixed (by simp [fixedLexemes]) t
  | bool b => exact fun _ t _ => lexesTo_fixed (by cases b <;> simp [fixedLexemes]) t
  | num n =>
    intro hw t ht
    obtain ⟨z, rfl⟩ := hw (.num n) (by simp [lexemes])
    rw [lexemes, LexesTo, List.flatMap_singleton]
    exact lexFrom_num ht z
  | str s => exact fun hw t _ => lexesTo_str (hw (.str s) (by simp [lexemes])) t
  | arr vs ih =>
    intro hw t _
    have hopen : ∀ u, LexesTo [.openArr] u := lexesTo_fixed (by simp [fixedLexemes])
    cases vs with
    | nil => exact (hopen _).append (lexesTo_fixed (by simp [fixedLexemes]) t)
    | cons v vs =>
      obtain ⟨hv, hvs⟩ := List.forall_mem_cons.mp ih
      simp only [Written, lexemes, List.forall_mem_cons, List.forall_mem_append] at hw
      exact (hopen _).append (hv.elements hw.2.1 (elements_lexesBack hvs hw.2.2 t))
  | obj ms ih =>
    intro hw t _
    have hopen : ∀ u, LexesTo [.openObj] u := lexesTo_fixed (by simp [fixedLexemes])
    cases ms with
    | nil => exact (hopen _).append (lexesTo_fixed (by simp [fixedLexemes]) t)
    | cons m ms =>
      obtain ⟨hm, hms⟩ := List.forall_mem_cons.mp ih
      simp only [Written, lexemes, List.forall_mem_cons, List.forall_mem_append] at hw
      obtain ⟨-, hk, -, hwm, hwms⟩ := hw
      exact (hopen _).append (hm.members hk hwm (members_lexesBack hms hwms t))

/-- A printed value is parsed as that value. -/
theorem parse_print {v : Json} (h : v.Written) : parse v.print = some v := by
  rw [parse_eq_some]
  have hlex := lexesBack v h [] (fun b hb => by cases hb)
  rw [LexesTo, List.append_nil] at hlex
  rw [lex, print, hlex]
  simp [lexFrom]

/-- An array is no longer than its elements, a separator each, and the brackets. -/
theorem length_print_arr (vs : List Json) :
    (Json.arr vs).print.length ≤ (vs.map (fun v => v.print.length + 1)).sum + 2 := by
  have helements : ∀ vs : List Json, ((elementLexemes vs).flatMap Lexeme.text).length =
      (vs.map (fun v => v.print.length + 1)).sum + 1 := by
    intro vs
    induction vs with
    | nil => rfl
    | cons v vs ih =>
      rw [elementLexemes, List.flatMap_cons, List.flatMap_append, List.length_append,
        List.length_append, ih, List.map_cons, List.sum_cons]
      show 1 + (v.print.length + _) = _
      omega
  cases vs with
  | nil => exact le_rfl
  | cons v vs =>
    rw [print, lexemes, List.flatMap_cons, List.flatMap_append, List.length_append,
      List.length_append, helements, List.map_cons, List.sum_cons]
    show 1 + (v.print.length + _) ≤ _
    omega

/-- An object is no longer than its members, a colon and a separator each, and the
braces. -/
theorem length_print_obj (ms : List (GoString × Json)) :
    (Json.obj ms).print.length ≤
      (ms.map (fun m => (quote m.1).length + m.2.print.length + 2)).sum + 2 := by
  have hmembers : ∀ ms : List (GoString × Json),
      ((memberLexemes ms).flatMap Lexeme.text).length =
        (ms.map (fun m => (quote m.1).length + m.2.print.length + 2)).sum + 1 := by
    intro ms
    induction ms with
    | nil => rfl
    | cons m ms ih =>
      rw [memberLexemes, List.flatMap_cons, List.flatMap_cons, List.flatMap_cons,
        List.flatMap_append, List.length_append, List.length_append, List.length_append,
        List.length_append, ih, List.map_cons, List.sum_cons]
      show 1 + ((quote m.1).length + (1 + (m.2.print.length + _))) = _
      omega
  cases ms with
  | nil => exact le_rfl
  | cons m ms =>
    rw [print, lexemes, List.flatMap_cons, List.flatMap_cons, List.flatMap_cons,
      List.flatMap_append, List.length_append, List.length_append, List.length_append,
      List.length_append, hmembers, List.map_cons, List.sum_cons]
    show 1 + ((quote m.1).length + (1 + (m.2.print.length + _))) ≤ _
    omega

end Json

end K3smApis
