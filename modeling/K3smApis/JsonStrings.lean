import K3smApis.GoJsonEncode
import K3smApis.Utf8

/-!
# Any string in a JSON text

What encoding/json makes of strings that need not be UTF-8: a literal keeps every well-formed
rune and spells U+FFFD for any other byte. A printed value is read back with its strings
cleaned in that way, and a cleaned string is read back as it is.
-/
namespace K3smApis.Json

/-- The first rune of a string, or U+FFFD where a byte starts none, and its length there. -/
def cleanUnit (b : UInt8) (bs : GoString) : GoString × ℕ :=
  if b < 0x80 then ([b], 1)
  else match runeSize b bs with
    | 0 => (replacement, 1)
    | n => ((b :: bs).take n, n)

/-- The counter is what is left of the rune read last. -/
def cleanFrom : ℕ → GoString → GoString
  | _, [] => []
  | skip + 1, _ :: bs => cleanFrom skip bs
  | 0, b :: bs => (cleanUnit b bs).1 ++ cleanFrom ((cleanUnit b bs).2 - 1) bs

/-- A string with U+FFFD for every byte that is not UTF-8. -/
def clean (s : GoString) : GoString := cleanFrom 0 s

theorem cleanFrom_drop (n : ℕ) (s : GoString) : cleanFrom n s = clean (s.drop n) := by
  induction s generalizing n with
  | nil => cases n <;> rfl
  | cons b s ih =>
    cases n with
    | zero => rfl
    | succ n => exact ih n

theorem clean_cons (b : UInt8) (bs : GoString) :
    clean (b :: bs) = (cleanUnit b bs).1 ++ clean (bs.drop ((cleanUnit b bs).2 - 1)) := by
  rw [clean, cleanFrom, cleanFrom_drop]

theorem quoteFrom_drop (n : ℕ) (s : GoString) : quoteFrom n s = quoteFrom 0 (s.drop n) := by
  induction s generalizing n with
  | nil => cases n <;> rfl
  | cons b s ih =>
    cases n with
    | zero => rfl
    | succ n => exact ih n

/-- The bytes of a sequence, and what may stand in them. -/
theorem runeSize_spec {b : UInt8} {bs : GoString} {n : ℕ} (h : runeSize b bs = n + 1) :
    ∃ lo hi c cs, leadByte b = some (n + 1, lo, hi) ∧ bs = c :: cs ∧ lo ≤ c ∧ c ≤ hi ∧ 1 ≤ n ∧
      n - 1 ≤ cs.length ∧ (cs.take (n - 1)).all (fun d => 0x80 ≤ d && d ≤ 0xbf) = true := by
  unfold runeSize at h
  cases hlead : leadByte b with
  | none => simp [hlead] at h
  | some spec =>
    obtain ⟨m, lo, hi⟩ := spec
    cases bs with
    | nil => simp [hlead] at h
    | cons c cs =>
      simp only [hlead] at h
      split_ifs at h with hc
      obtain ⟨hlo, hhi, hlen, hall⟩ := hc
      subst h
      have hm := (Utf8.leadByte_spec hlead).1
      rw [List.length_take] at hlen
      exact ⟨lo, hi, c, cs, rfl, rfl, hlo, hhi, by omega, by omega, hall⟩

/-- A sequence is read by its own bytes, whatever follows. -/
theorem runeSize_take {b : UInt8} {bs : GoString} {n : ℕ} (h : runeSize b bs = n + 1)
    (t : GoString) : runeSize b (bs.take n ++ t) = n + 1 := by
  obtain ⟨lo, hi, c, cs, hlead, rfl, hlo, hhi, hn, hlen, hall⟩ := runeSize_spec h
  obtain ⟨k, rfl⟩ := Nat.exists_eq_add_of_le' hn
  rw [Nat.add_sub_cancel] at hlen hall
  have htake : ((cs.take k) ++ t).take k = cs.take k := by
    rw [List.take_append_of_le_length (by simpa using hlen), List.take_take, min_self]
  have hlength : (cs.take k).length = k := by simpa using hlen
  have hcount : k + 1 + 1 - 2 = k := rfl
  rw [List.take_succ_cons, List.cons_append]
  simp only [runeSize, hlead, hcount, htake, hlo, hhi, hlength, hall, and_self, if_true]

theorem runeSize_le {b : UInt8} {bs : GoString} {n : ℕ} (h : runeSize b bs = n + 1) :
    n ≤ bs.length := by
  obtain ⟨lo, hi, c, cs, -, rfl, -, -, -, hlen, -⟩ := runeSize_spec h
  simp only [List.length_cons]
  omega

/-- Every ASCII byte is spelled by one unit. -/
theorem stringUnit_escape_ascii {b : UInt8} (hb : b < 0x80) :
    ∃ c cs, escape b = c :: cs ∧ c ≠ 0x22 ∧
      ∀ t, stringUnit c (cs ++ t) = some ([b], cs.length + 1) := by
  by_cases hplain : 0x20 ≤ b ∧ b ≤ 0x7e
  · exact stringUnit_escape hplain.1 hplain.2
  -- the control characters and DEL
  have hcases : b.toNat < 0x20 ∨ b.toNat = 0x7f := by
    rw [UInt8.le_iff_toNat_le, UInt8.le_iff_toNat_le] at hplain
    rw [UInt8.lt_iff_toNat_lt] at hb
    simp only [UInt8.reduceToNat] at hplain hb
    omega
  obtain ⟨n, hn⟩ : ∃ n, n = b.toNat := ⟨_, rfl⟩
  obtain rfl : b = UInt8.ofNat n := by rw [hn, UInt8.ofNat_toNat]
  rw [← hn] at hcases
  clear hplain hb hn
  rcases hcases with hn | rfl
  · interval_cases n <;> exact ⟨_, _, rfl, by decide, fun t => rfl⟩
  · exact ⟨_, _, rfl, by decide, fun t => rfl⟩

/-- The spelling of the first rune is one unit, which stands for the cleaned rune. -/
theorem stringUnit_quoteUnit (b : UInt8) (bs : GoString) :
    (quoteUnit b bs).2 = (cleanUnit b bs).2 ∧
      ∃ c cs, (quoteUnit b bs).1 = c :: cs ∧ c ≠ 0x22 ∧
        ∀ t, stringUnit c (cs ++ t) = some ((cleanUnit b bs).1, cs.length + 1) := by
  by_cases hb : b < 0x80
  · rw [quoteUnit, cleanUnit, if_pos hb, if_pos hb]
    exact ⟨rfl, stringUnit_escape_ascii hb⟩
  cases hsize : runeSize b bs with
  | zero =>
    simp only [quoteUnit, cleanUnit, if_neg hb, hsize]
    exact ⟨trivial, 0x5c, lit "ufffd", by decide, by decide, fun t => rfl⟩
  | succ n =>
    simp only [quoteUnit, cleanUnit, if_neg hb, hsize]
    -- the two line separators are escaped, and have three bytes
    have hthree {e : UInt8} (h : (b :: bs).take 3 = [0xe2, 0x80, e]) : n + 1 = 3 := by
      obtain ⟨lo, hi, c, cs, hlead, -⟩ := runeSize_spec hsize
      obtain rfl : b = 0xe2 := (List.cons.inj h).1
      simpa [leadByte] using congrArg (Option.map Prod.fst) hlead.symm
    by_cases h28 : (b :: bs).take 3 = [0xe2, 0x80, 0xa8]
    · rw [if_pos h28, hthree h28, h28]
      exact ⟨rfl, 0x5c, lit "u2028", by decide, by decide, fun t => rfl⟩
    by_cases h29 : (b :: bs).take 3 = [0xe2, 0x80, 0xa9]
    · rw [if_neg h28, if_pos h29, hthree h29, h29]
      exact ⟨rfl, 0x5c, lit "u2029", by decide, by decide, fun t => rfl⟩
    rw [if_neg h28, if_neg h29]
    refine ⟨rfl, b, bs.take n, rfl, ?_, fun t => ?_⟩
    · rintro rfl
      exact hb (by decide)
    · have hlow : ¬b < 0x20 := fun h => hb (UInt8.lt_trans h (by decide))
      have hback : b ≠ 0x5c := by
        rintro rfl
        exact hb (by decide)
      have hlen : (bs.take n).length = n := by simpa using runeSize_le hsize
      simp only [stringUnit, if_neg hlow, if_neg hback, if_neg hb, runeSize_take hsize t]
      rw [List.take_succ_cons, List.take_succ_cons, hlen,
        List.take_append_of_le_length hlen.ge, List.take_take, min_self]

theorem stringFrom_quoteUnit (b : UInt8) (bs t : GoString) :
    stringFrom 0 ((quoteUnit b bs).1 ++ t) = (stringFrom 0 t).map
      (fun r => ((cleanUnit b bs).1 ++ r.1, r.2 + (quoteUnit b bs).1.length)) := by
  obtain ⟨-, c, cs, hq, hc, hunit⟩ := stringUnit_quoteUnit b bs
  rw [hq, List.cons_append, stringFrom, if_neg hc, hunit t]
  show (stringFrom (cs.length + 1 - 1) (cs ++ t)).bind _ = _
  rw [Nat.add_sub_cancel, stringFrom_skip]
  cases stringFrom 0 t with
  | none => rfl
  | some r => rfl

/-- A literal decodes to the cleaned string. -/
theorem stringFrom_quote_clean (s t : GoString) :
    stringFrom 0 (quoteFrom 0 s ++ 0x22 :: t) = some (clean s, (quoteFrom 0 s).length + 1) := by
  induction hn : s.length using Nat.strong_induction_on generalizing s with
  | _ n ih =>
    cases s with
    | nil => rfl
    | cons b bs =>
      have hsize := (stringUnit_quoteUnit b bs).1
      have hrest := ih (bs.drop ((cleanUnit b bs).2 - 1)).length
        (by rw [← hn, List.length_drop, List.length_cons]; omega) _ rfl
      rw [quoteFrom, hsize, quoteFrom_drop, List.append_assoc, stringFrom_quoteUnit, hrest,
        clean_cons, List.length_append]
      simp only [Option.map_some, Option.some.injEq, Prod.mk.injEq, true_and]
      omega

theorem lexFrom_quote (s t : GoString) :
    lexFrom 0 (quote s ++ t) = (lexFrom 0 t).map (.str (clean s) :: ·) := by
  refine lexFrom_cons (by decide) ?_
  rw [lexeme, fixedLexemes_find_none (.inl rfl), List.append_assoc]
  simp only [if_true, List.singleton_append, stringFrom_quote_clean s t, Option.map_some,
    List.length_append, List.length_singleton]

/-- A lexeme with its string cleaned. -/
def Lexeme.cleaned : Lexeme → Lexeme
  | .str s => .str (clean s)
  | l => l

mutual

/-- A value with its strings and keys cleaned. -/
def cleaned : Json → Json
  | .null => .null
  | .bool b => .bool b
  | .num t => .num t
  | .str s => .str (clean s)
  | .arr vs => .arr (cleanedElements vs)
  | .obj ms => .obj (cleanedMembers ms)

def cleanedElements : List Json → List Json
  | [] => []
  | v :: vs => cleaned v :: cleanedElements vs

def cleanedMembers : List (GoString × Json) → List (GoString × Json)
  | [] => []
  | m :: ms => (clean m.1, cleaned m.2) :: cleanedMembers ms

end

theorem cleanedElements_eq (vs : List Json) : cleanedElements vs = vs.map cleaned := by
  induction vs with
  | nil => rfl
  | cons v vs ih => rw [cleanedElements, ih, List.map_cons]

theorem cleanedMembers_eq (ms : List (GoString × Json)) :
    cleanedMembers ms = ms.map (fun m => (clean m.1, cleaned m.2)) := by
  induction ms with
  | nil => rfl
  | cons m ms ih => rw [cleanedMembers, ih, List.map_cons]

/-- The lexemes of some numbers, and of anything else, as an encoder writes them: a number is
an integer. -/
def Lexeme.Integer : Lexeme → Prop
  | .num t => ∃ n : ℤ, t = Decimal.ofInt n
  | _ => True

/-- Every number of a value is written as an integer. -/
def Integers (v : Json) : Prop := ∀ l ∈ v.lexemes, l.Integer

/-- The texts of some lexemes, in front of another text, are read as these lexemes with
their strings cleaned. -/
def LexesCleaned (ls : List Lexeme) (t : GoString) : Prop :=
  lexFrom 0 (ls.flatMap Lexeme.text ++ t) = (lexFrom 0 t).map (ls.map Lexeme.cleaned ++ ·)

theorem LexesCleaned.append {a b : List Lexeme} {t : GoString}
    (ha : LexesCleaned a (b.flatMap Lexeme.text ++ t)) (hb : LexesCleaned b t) :
    LexesCleaned (a ++ b) t := by
  unfold LexesCleaned at *
  rw [List.flatMap_append, List.append_assoc, ha, hb, Option.map_map]
  simp [Function.comp_def]

theorem lexesCleaned_fixed {l : Lexeme} (h : l ∈ fixedLexemes) (t : GoString) :
    LexesCleaned [l] t := by
  have hself : l.cleaned = l := by
    cases l with
    | str s => simp [fixedLexemes] at h
    | _ => rfl
  rw [LexesCleaned, List.flatMap_singleton, List.map_singleton, hself]
  exact lexFrom_fixed h t

theorem lexesCleaned_str (s t : GoString) : LexesCleaned [.str s] t := by
  rw [LexesCleaned, List.flatMap_singleton]
  exact lexFrom_quote s t

/-- The printed value is read back wherever a number may end. -/
def CleansBack (v : Json) : Prop := v.Integers → ∀ t, NumberEnd t → LexesCleaned v.lexemes t

theorem CleansBack.elements {v : Json} {vs : List Json} {t : GoString} (hv : CleansBack v)
    (hw : v.Integers) (hvs : LexesCleaned (elementLexemes vs) t) :
    LexesCleaned (v.lexemes ++ elementLexemes vs) t := by
  refine (hv hw _ ?_).append hvs
  cases vs with
  | nil => exact numberEnd_fixed (.inr (.inl rfl)) _ t
  | cons => exact numberEnd_fixed (.inl rfl) _ t

theorem CleansBack.members {k : GoString} {v : Json} {ms : List (GoString × Json)} {t : GoString}
    (hv : CleansBack v) (hw : v.Integers) (hms : LexesCleaned (memberLexemes ms) t) :
    LexesCleaned (.str k :: .colon :: (v.lexemes ++ memberLexemes ms)) t := by
  refine (lexesCleaned_str k _).append ((lexesCleaned_fixed (by simp [fixedLexemes]) _).append
    ((hv hw _ ?_).append hms))
  cases ms with
  | nil => exact numberEnd_fixed (.inr (.inr rfl)) _ t
  | cons => exact numberEnd_fixed (.inl rfl) _ t

theorem elements_cleansBack {vs : List Json} (h : ∀ v ∈ vs, CleansBack v)
    (hw : ∀ l ∈ elementLexemes vs, l.Integer) (t : GoString) :
    LexesCleaned (elementLexemes vs) t := by
  induction vs with
  | nil => exact lexesCleaned_fixed (by simp [fixedLexemes]) t
  | cons v vs ih =>
    obtain ⟨hv, hvs⟩ := List.forall_mem_cons.mp h
    simp only [elementLexemes, List.forall_mem_cons, List.forall_mem_append] at hw
    exact (lexesCleaned_fixed (by simp [fixedLexemes]) _).append
      (hv.elements hw.2.1 (ih hvs hw.2.2))

theorem members_cleansBack {ms : List (GoString × Json)} (h : ∀ m ∈ ms, CleansBack m.2)
    (hw : ∀ l ∈ memberLexemes ms, l.Integer) (t : GoString) :
    LexesCleaned (memberLexemes ms) t := by
  induction ms with
  | nil => exact lexesCleaned_fixed (by simp [fixedLexemes]) t
  | cons m ms ih =>
    obtain ⟨hm, hms⟩ := List.forall_mem_cons.mp h
    simp only [memberLexemes, List.forall_mem_cons, List.forall_mem_append] at hw
    obtain ⟨-, -, -, hwm, hwms⟩ := hw
    exact (lexesCleaned_fixed (by simp [fixedLexemes]) _).append (hm.members hwm (ih hms hwms))

theorem cleansBack (v : Json) : CleansBack v := by
  induction v with
  | null => exact fun _ t _ => lexesCleaned_fixed (by simp [fixedLexemes]) t
  | bool b => exact fun _ t _ => lexesCleaned_fixed (by cases b <;> simp [fixedLexemes]) t
  | num n =>
    intro hw t ht
    obtain ⟨z, rfl⟩ := hw (.num n) (by simp [lexemes])
    rw [lexemes, LexesCleaned, List.flatMap_singleton]
    exact lexFrom_num ht z
  | str s => exact fun _ t _ => lexesCleaned_str s t
  | arr vs ih =>
    intro hw t _
    have hopen : ∀ u, LexesCleaned [.openArr] u := lexesCleaned_fixed (by simp [fixedLexemes])
    cases vs with
    | nil => exact (hopen _).append (lexesCleaned_fixed (by simp [fixedLexemes]) t)
    | cons v vs =>
      obtain ⟨hv, hvs⟩ := List.forall_mem_cons.mp ih
      simp only [Integers, lexemes, List.forall_mem_cons, List.forall_mem_append] at hw
      exact (hopen _).append (hv.elements hw.2.1 (elements_cleansBack hvs hw.2.2 t))
  | obj ms ih =>
    intro hw t _
    have hopen : ∀ u, LexesCleaned [.openObj] u := lexesCleaned_fixed (by simp [fixedLexemes])
    cases ms with
    | nil => exact (hopen _).append (lexesCleaned_fixed (by simp [fixedLexemes]) t)
    | cons m ms =>
      obtain ⟨hm, hms⟩ := List.forall_mem_cons.mp ih
      simp only [Integers, lexemes, List.forall_mem_cons, List.forall_mem_append] at hw
      obtain ⟨-, -, -, hwm, hwms⟩ := hw
      exact (hopen _).append (hm.members hwm (members_cleansBack hms hwms t))

theorem lexemes_cleaned (v : Json) : v.cleaned.lexemes = v.lexemes.map Lexeme.cleaned := by
  have helements (vs : List Json) (h : ∀ v ∈ vs, v.cleaned.lexemes = v.lexemes.map Lexeme.cleaned) :
      elementLexemes (cleanedElements vs) = (elementLexemes vs).map Lexeme.cleaned := by
    induction vs with
    | nil => rfl
    | cons v vs ih =>
      obtain ⟨hv, hvs⟩ := List.forall_mem_cons.mp h
      simp only [cleanedElements, elementLexemes, List.map_cons, List.map_append, hv, ih hvs]
      rfl
  have hmembers (ms : List (GoString × Json))
      (h : ∀ m ∈ ms, m.2.cleaned.lexemes = m.2.lexemes.map Lexeme.cleaned) :
      memberLexemes (cleanedMembers ms) = (memberLexemes ms).map Lexeme.cleaned := by
    induction ms with
    | nil => rfl
    | cons m ms ih =>
      obtain ⟨hm, hms⟩ := List.forall_mem_cons.mp h
      simp only [cleanedMembers, memberLexemes, List.map_cons, List.map_append, hm, ih hms]
      rfl
  induction v with
  | null | bool | num | str => rfl
  | arr vs ih =>
    cases vs with
    | nil => rfl
    | cons v vs =>
      obtain ⟨hv, hvs⟩ := List.forall_mem_cons.mp ih
      simp only [cleaned, cleanedElements, lexemes, List.map_cons, List.map_append, hv,
        helements vs hvs]
      rfl
  | obj ms ih =>
    cases ms with
    | nil => rfl
    | cons m ms =>
      obtain ⟨hm, hms⟩ := List.forall_mem_cons.mp ih
      simp only [cleaned, cleanedMembers, lexemes, List.map_cons, List.map_append, hm,
        hmembers ms hms]
      rfl

/-- A printed value, with blanks behind it or not, is parsed as the cleaned value. -/
theorem parse_print_cleaned {v : Json} (h : v.Integers) {t : GoString} (hend : NumberEnd t)
    (ht : lexFrom 0 t = some []) : parse (v.print ++ t) = some v.cleaned := by
  have hlex := cleansBack v h t hend
  rw [LexesCleaned, ht] at hlex
  rw [parse_eq_some, lex, print, hlex, lexemes_cleaned]
  simp

/-- The cleaned rune is a rune on its own. -/
theorem clean_cleanUnit (b : UInt8) (bs t : GoString) :
    clean ((cleanUnit b bs).1 ++ t) = (cleanUnit b bs).1 ++ clean t := by
  unfold cleanUnit
  by_cases hb : b < 0x80
  · rw [if_pos hb, List.singleton_append, clean_cons, cleanUnit, if_pos hb]
    rfl
  rw [if_neg hb]
  cases hsize : runeSize b bs with
  | zero =>
    show clean (0xef :: ([0xbf, 0xbd] ++ t)) = _
    rw [clean_cons]
    rfl
  | succ n =>
    have hlen : (bs.take n).length = n := by simpa using runeSize_le hsize
    have hunit : cleanUnit b (bs.take n ++ t) = (b :: bs.take n, n + 1) := by
      simp only [cleanUnit, if_neg hb, runeSize_take hsize t]
      rw [List.take_succ_cons, List.take_append_of_le_length hlen.ge, List.take_take, min_self]
    show clean ((b :: bs).take (n + 1) ++ t) = (b :: bs).take (n + 1) ++ clean t
    rw [List.take_succ_cons, List.cons_append, clean_cons, hunit]
    simp only [Nat.add_sub_cancel, List.cons_append]
    rw [List.drop_append_of_le_length hlen.ge, List.drop_of_length_le hlen.le, List.nil_append]

theorem clean_clean (s : GoString) : clean (clean s) = clean s := by
  induction hn : s.length using Nat.strong_induction_on generalizing s with
  | _ n ih =>
    cases s with
    | nil => rfl
    | cons b bs =>
      have hrest := ih (bs.drop ((cleanUnit b bs).2 - 1)).length
        (by rw [← hn, List.length_drop, List.length_cons]; omega) _ rfl
      rw [clean_cons, clean_cleanUnit, hrest]

/-- A string that cleaning leaves as it is: well-formed UTF-8. -/
def WellFormed (s : GoString) : Prop := clean s = s

instance (s : GoString) : Decidable (WellFormed s) := inferInstanceAs (Decidable (clean s = s))

theorem wellFormed_of_plain {s : GoString} (h : Plain s) : WellFormed s := by
  induction s with
  | nil => rfl
  | cons b s ih =>
    obtain ⟨⟨-, hb⟩, hs⟩ := List.forall_mem_cons.mp h
    have hunit : cleanUnit b s = ([b], 1) := if_pos (UInt8.lt_of_le_of_lt hb (by decide))
    rw [WellFormed, clean_cons, hunit]
    exact congrArg (b :: ·) (ih hs)

end K3smApis.Json
