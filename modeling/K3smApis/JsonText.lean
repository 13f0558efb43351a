import K3smApis.Decimal

/-!
# JSON text

The lexical level of JSON as Go's encoding/json writes and reads it: the lexemes of a
text, string literals with their escapes, and the number grammar. A literal decodes to
well-formed UTF-8: a malformed byte or a lone surrogate becomes U+FFFD.
-/
namespace K3smApis

namespace Json

/-- What a byte above 0x7f can start: the length of the sequence and the range of its
second byte. -/
def leadByte (b : UInt8) : Option (ℕ × UInt8 × UInt8) :=
  if 0xc2 ≤ b ∧ b ≤ 0xdf then some (2, 0x80, 0xbf)
  else if b = 0xe0 then some (3, 0xa0, 0xbf)
  else if b = 0xed then some (3, 0x80, 0x9f)
  else if 0xe1 ≤ b ∧ b ≤ 0xef then some (3, 0x80, 0xbf)
  else if b = 0xf0 then some (4, 0x90, 0xbf)
  else if 0xf1 ≤ b ∧ b ≤ 0xf3 then some (4, 0x80, 0xbf)
  else if b = 0xf4 then some (4, 0x80, 0x8f)
  else none

/-- The length of the well-formed sequence of several bytes that `b` starts, and 0 where
it starts none. -/
def runeSize (b : UInt8) (bs : GoString) : ℕ :=
  match leadByte b, bs with
  | some (n, lo, hi), c :: cs =>
    let tail := cs.take (n - 2)
    if lo ≤ c ∧ c ≤ hi ∧ tail.length = n - 2 ∧ tail.all (fun d => 0x80 ≤ d && d ≤ 0xbf) then n
    else 0
  | _, _ => 0

/-- `utf8.AppendRune`, of a rune that is no surrogate. -/
def encodeRune (r : ℕ) : GoString :=
  let tail (n : ℕ) : UInt8 := UInt8.ofNat (0x80 + n % 64)
  if r < 0x80 then [UInt8.ofNat r]
  else if r < 0x800 then [UInt8.ofNat (0xc0 + r / 64), tail r]
  else if r < 0x10000 then [UInt8.ofNat (0xe0 + r / 4096), tail (r / 64), tail r]
  else [UInt8.ofNat (0xf0 + r / 262144), tail (r / 4096), tail (r / 64), tail r]

/-- U+FFFD. -/
def replacement : GoString := [0xef, 0xbf, 0xbd]

def hexDigit (n : ℕ) : UInt8 := UInt8.ofNat (if n < 10 then 0x30 + n else 0x57 + n)

def hexValue (b : UInt8) : Option ℕ :=
  if 0x30 ≤ b ∧ b ≤ 0x39 then some (b.toNat - 0x30)
  else if 0x61 ≤ b ∧ b ≤ 0x66 then some (b.toNat - 0x57)
  else if 0x41 ≤ b ∧ b ≤ 0x46 then some (b.toNat - 0x37)
  else none

/-- Four hexadecimal digits at the start of a text. -/
def hex4 : GoString → Option ℕ
  | a :: b :: c :: d :: _ => do
    let x ← hexValue a
    let y ← hexValue b
    let z ← hexValue c
    let w ← hexValue d
    some (4096 * x + 256 * y + 16 * z + w)
  | _ => none

/-- The character of a one-letter escape. -/
def escapeLetter (e : UInt8) : Option UInt8 :=
  if e = 0x22 ∨ e = 0x5c ∨ e = 0x2f then some e   -- quote, backslash, slash
  else if e = 0x62 then some 0x08                 -- b
  else if e = 0x66 then some 0x0c                 -- f
  else if e = 0x6e then some 0x0a                 -- n
  else if e = 0x72 then some 0x0d                 -- r
  else if e = 0x74 then some 0x09                 -- t
  else none

/-- The low surrogate whose escape a text starts with. -/
def lowSurrogate : GoString → Option ℕ
  | 0x5c :: 0x75 :: bs => (hex4 bs).filter (fun r => 0xdc00 ≤ r ∧ r < 0xe000)
  | _ => none

/-- An escape after its backslash: the bytes it stands for, and its length with the
backslash. A surrogate pair is one escape of twelve bytes. -/
def escapeUnit : GoString → Option (GoString × ℕ)
  | [] => none
  | e :: bs =>
    if e = 0x75 then do
      let r ← hex4 bs
      if r < 0xd800 ∨ 0xe000 ≤ r then some (encodeRune r, 6)
      else match lowSurrogate (bs.drop 4) with
        | some low =>
          if r < 0xdc00 then
            some (encodeRune (0x10000 + (r - 0xd800) * 1024 + (low - 0xdc00)), 12)
          else some (replacement, 6)
        | none => some (replacement, 6)
    else (escapeLetter e).map (fun c => ([c], 2))

/-- One unit of a string literal, a character or an escape: its bytes and its length in
the literal. -/
def stringUnit (b : UInt8) (bs : GoString) : Option (GoString × ℕ) :=
  if b < 0x20 then none
  else if b = 0x5c then escapeUnit bs
  else if b < 0x80 then some ([b], 1)
  else match runeSize b bs with
    | 0 => some (replacement, 1)
    | n => some ((b :: bs).take n, n)

/-- A string literal after its opening quote: the decoded bytes, and the length with the
closing quote. The counter is what is left of the unit read last. -/
def stringFrom : ℕ → GoString → Option (GoString × ℕ)
  | _, [] => none
  | skip + 1, _ :: bs => (stringFrom skip bs).map (fun r => (r.1, r.2 + 1))
  | 0, b :: bs =>
    if b = 0x22 then some ([], 1)
    else do
      let (out, n) ← stringUnit b bs
      let (rest, m) ← stringFrom (n - 1) bs
      some (out ++ rest, m + 1)

/-- How a literal spells an ASCII byte. Angle brackets and the ampersand are escaped for
HTML. -/
def escape (b : UInt8) : GoString :=
  if b = 0x22 ∨ b = 0x5c then [0x5c, b]
  else if b = 0x08 then lit "\\b"
  else if b = 0x0c then lit "\\f"
  else if b = 0x0a then lit "\\n"
  else if b = 0x0d then lit "\\r"
  else if b = 0x09 then lit "\\t"
  else if b < 0x20 ∨ b = 0x3c ∨ b = 0x3e ∨ b = 0x26 then
    lit "\\u00" ++ [hexDigit (b.toNat / 16), hexDigit (b.toNat % 16)]
  else [b]

/-- The first rune of a string as a literal spells it, and its length in the string. -/
def quoteUnit (b : UInt8) (bs : GoString) : GoString × ℕ :=
  if b < 0x80 then (escape b, 1)
  else match runeSize b bs with
    | 0 => (lit "\\ufffd", 1)
    | n =>
      if (b :: bs).take 3 = [0xe2, 0x80, 0xa8] then (lit "\\u2028", 3)
      else if (b :: bs).take 3 = [0xe2, 0x80, 0xa9] then (lit "\\u2029", 3)
      else ((b :: bs).take n, n)

def quoteFrom : ℕ → GoString → GoString
  | _, [] => []
  | skip + 1, _ :: bs => quoteFrom skip bs
  | 0, b :: bs => (quoteUnit b bs).1 ++ quoteFrom ((quoteUnit b bs).2 - 1) bs

/-- A string literal. -/
def quote (s : GoString) : GoString := 0x22 :: (quoteFrom 0 s ++ [0x22])

def digitCount (t : GoString) : ℕ := (t.takeWhile Decimal.isDigit).length

/-- The length of an integer part: a zero, or digits that do not start with one. -/
def wholeSize : GoString → Option ℕ
  | [] => none
  | b :: bs =>
    if b = 0x30 then some 1
    else if Decimal.isDigit b then some (1 + digitCount bs)
    else none

/-- The length of a fraction: none, or a point and digits. -/
def fractionSize : GoString → Option ℕ
  | [] => some 0
  | b :: bs =>
    if b = 0x2e then (if digitCount bs = 0 then none else some (1 + digitCount bs))
    else some 0

/-- The length of an exponent: none, or an e, a sign that may be missing, and digits. -/
def exponentSize : GoString → Option ℕ
  | [] => some 0
  | b :: bs =>
    if b = 0x65 ∨ b = 0x45 then
      let signSize := if bs.head? = some 0x2b ∨ bs.head? = some 0x2d then 1 else 0
      let n := digitCount (bs.drop signSize)
      if n = 0 then none else some (1 + signSize + n)
    else some 0

/-- The length of the number a text starts with. -/
def numberSize (t : GoString) : Option ℕ := do
  let sign := if t.head? = some 0x2d then 1 else 0
  let whole ← wholeSize (t.drop sign)
  let fraction ← fractionSize (t.drop (sign + whole))
  let exponent ← exponentSize (t.drop (sign + whole + fraction))
  some (sign + whole + fraction + exponent)

/-- A lexeme: punctuation, a literal word, a number as it is written, or the string a
literal decodes to. -/
inductive Lexeme where
  | openObj | closeObj | openArr | closeArr | comma | colon
  | null
  | bool (b : Bool)
  | num (text : GoString)
  | str (s : GoString)
  deriving DecidableEq, Repr

/-- How a lexeme is written. -/
def Lexeme.text : Lexeme → GoString
  | .openObj => lit "\x7b"
  | .closeObj => lit "\x7d"
  | .openArr => lit "["
  | .closeArr => lit "]"
  | .comma => lit ","
  | .colon => lit ":"
  | .null => lit "null"
  | .bool true => lit "true"
  | .bool false => lit "false"
  | .num t => t
  | .str s => quote s

/-- The lexemes with one spelling. -/
def fixedLexemes : List Lexeme :=
  [.openObj, .closeObj, .openArr, .closeArr, .comma, .colon, .null, .bool true, .bool false]

/-- The lexeme a text starts with, and its length. -/
def lexeme (b : UInt8) (bs : GoString) : Option (Lexeme × ℕ) :=
  match fixedLexemes.find? (fun l => l.text.isPrefixOf (b :: bs)) with
  | some l => some (l, l.text.length)
  | none =>
    if b = 0x22 then (stringFrom 0 bs).map (fun r => (.str r.1, r.2 + 1))
    else (numberSize (b :: bs)).map (fun n => (.num ((b :: bs).take n), n))

def isSpace (b : UInt8) : Bool := b = 0x20 || b = 0x09 || b = 0x0a || b = 0x0d

/-- The lexemes of a text. The counter is what is left of the lexeme read last. -/
def lexFrom : ℕ → GoString → Option (List Lexeme)
  | _, [] => some []
  | skip + 1, _ :: bs => lexFrom skip bs
  | 0, b :: bs =>
    if isSpace b then lexFrom 0 bs
    else do
      let (l, n) ← lexeme b bs
      let ls ← lexFrom (n - 1) bs
      some (l :: ls)

def lex (t : GoString) : Option (List Lexeme) := lexFrom 0 t

example : lex (lit "\x7b\"\\u0041\\ud83d\\ude00\" :[ -1.5e3,true]\x7d") =
    some [.openObj, .str [0x41, 0xf0, 0x9f, 0x98, 0x80], .colon, .openArr, .num (lit "-1.5e3"),
      .comma, .bool true, .closeArr, .closeObj] := by
  decide +kernel

/-- A string of printable ASCII. -/
def Plain (s : GoString) : Prop := ∀ b ∈ s, 0x20 ≤ b ∧ b ≤ 0x7e

theorem lexFrom_skip (a t : GoString) : lexFrom a.length (a ++ t) = lexFrom 0 t := by
  induction a with
  | nil => rfl
  | cons b a ih => exact ih

theorem stringFrom_skip (a t : GoString) :
    stringFrom a.length (a ++ t) = (stringFrom 0 t).map (fun r => (r.1, r.2 + a.length)) := by
  induction a with
  | nil => simp
  | cons b a ih =>
    rw [List.length_cons, List.cons_append, stringFrom, ih, Option.map_map]
    rfl

/-- The spelling of a printable byte is one unit of a literal. -/
theorem stringUnit_escape {b : UInt8} (hlo : 0x20 ≤ b) (hhi : b ≤ 0x7e) :
    ∃ c cs, escape b = c :: cs ∧ c ≠ 0x22 ∧
      ∀ t, stringUnit c (cs ++ t) = some ([b], cs.length + 1) := by
  by_cases hquote : b = 0x22
  · subst hquote
    exact ⟨0x5c, [0x22], rfl, by decide, fun t => rfl⟩
  by_cases hback : b = 0x5c
  · subst hback
    exact ⟨0x5c, [0x5c], rfl, by decide, fun t => rfl⟩
  by_cases hless : b = 0x3c
  · subst hless
    exact ⟨0x5c, lit "u003c", by decide, by decide, fun t => rfl⟩
  by_cases hgreater : b = 0x3e
  · subst hgreater
    exact ⟨0x5c, lit "u003e", by decide, by decide, fun t => rfl⟩
  by_cases hand : b = 0x26
  · subst hand
    exact ⟨0x5c, lit "u0026", by decide, by decide, fun t => rfl⟩
  have hctl : ¬b < 0x20 := by simpa using hlo
  have hself : escape b = [b] := by
    have hne : b ≠ 0x08 ∧ b ≠ 0x0c ∧ b ≠ 0x0a ∧ b ≠ 0x0d ∧ b ≠ 0x09 := by
      refine ⟨?_, ?_, ?_, ?_, ?_⟩ <;> rintro rfl <;> exact absurd hlo (by decide)
    simp [escape, hquote, hback, hless, hgreater, hand, hctl, hne]
  have hascii : b < 0x80 := UInt8.lt_of_le_of_lt hhi (by decide)
  refine ⟨b, [], hself, hquote, fun t => ?_⟩
  simp [stringUnit, hctl, hback, hascii]

theorem stringFrom_escape {b : UInt8} (hlo : 0x20 ≤ b) (hhi : b ≤ 0x7e) (t : GoString) :
    stringFrom 0 (escape b ++ t) =
      (stringFrom 0 t).map (fun r => (b :: r.1, r.2 + (escape b).length)) := by
  obtain ⟨c, cs, hesc, hc, hunit⟩ := stringUnit_escape hlo hhi
  rw [hesc, List.cons_append, stringFrom, if_neg hc, hunit t]
  show (stringFrom (cs.length + 1 - 1) (cs ++ t)).bind _ = _
  rw [Nat.add_sub_cancel, stringFrom_skip]
  cases stringFrom 0 t with
  | none => rfl
  | some r => rfl

theorem quoteFrom_of_plain {s : GoString} (h : Plain s) : quoteFrom 0 s = s.flatMap escape := by
  induction s with
  | nil => rfl
  | cons b s ih =>
    obtain ⟨⟨-, hb⟩, hs⟩ := List.forall_mem_cons.mp h
    have hunit : quoteUnit b s = (escape b, 1) := if_pos (UInt8.lt_of_le_of_lt hb (by decide))
    rw [quoteFrom, hunit, List.flatMap_cons]
    exact congrArg (escape b ++ ·) (ih hs)

theorem stringFrom_quote {s : GoString} (h : Plain s) (t : GoString) :
    stringFrom 0 (quoteFrom 0 s ++ 0x22 :: t) = some (s, (quoteFrom 0 s).length + 1) := by
  rw [quoteFrom_of_plain h]
  induction s with
  | nil => rfl
  | cons b s ih =>
    obtain ⟨⟨hlo, hhi⟩, hs⟩ := List.forall_mem_cons.mp h
    rw [List.flatMap_cons, List.append_assoc, stringFrom_escape hlo hhi, ih hs,
      List.length_append]
    simp only [Option.map_some, Option.some.injEq, Prod.mk.injEq, true_and]
    omega

/-- Six bytes at most for each byte of the string. -/
theorem length_quote_le {s : GoString} (h : Plain s) : (quote s).length ≤ 6 * s.length + 2 := by
  have hescape : ∀ b, (escape b).length ≤ 6 := by
    intro b
    unfold escape
    split_ifs
    · simp
    · decide
    · decide
    · decide
    · decide
    · decide
    · rw [List.length_append]
      exact (by decide : (lit "\\u00").length + 2 ≤ 6)
    · simp
  have hall : (s.flatMap escape).length ≤ 6 * s.length := by
    induction s with
    | nil => simp
    | cons b s ih =>
      have := hescape b
      have := ih (List.forall_mem_cons.mp h).2
      rw [List.flatMap_cons, List.length_append, List.length_cons]
      omega
  rw [quote, quoteFrom_of_plain h, List.length_cons, List.length_append, List.length_singleton]
  omega

/-- One byte for each byte that is not escaped. -/
theorem length_quote_of_escape {s : GoString} (h : Plain s) (hself : ∀ b ∈ s, escape b = [b]) :
    (quote s).length = s.length + 2 := by
  have hall : s.flatMap escape = s := by
    rw [List.flatMap_congr hself]
    exact List.flatMap_singleton' s
  rw [quote, quoteFrom_of_plain h, hall, List.length_cons, List.length_append,
    List.length_singleton]

/-- What may follow a number. -/
def NumberEnd (t : GoString) : Prop :=
  ∀ b ∈ t.head?, Decimal.isDigit b = false ∧ b ≠ 0x2e ∧ b ≠ 0x65 ∧ b ≠ 0x45

theorem digitCount_append {d t : GoString} (hd : ∀ b ∈ d, Decimal.isDigit b = true)
    (ht : NumberEnd t) : digitCount (d ++ t) = d.length := by
  have hstop : t.takeWhile Decimal.isDigit = [] := by
    cases t with
    | nil => rfl
    | cons b t => rw [List.takeWhile_cons, (ht b rfl).1]; rfl
  rw [digitCount, List.takeWhile_append_of_pos hd, hstop, List.append_nil]

theorem wholeSize_ofNat {t : GoString} (ht : NumberEnd t) (n : ℕ) :
    wholeSize (Decimal.ofNat n ++ t) = some (Decimal.ofNat n).length := by
  rcases Decimal.ofNat_head n with hzero | hlead
  · rw [hzero]
    rfl
  · obtain ⟨b, d, hbd⟩ := List.exists_cons_of_ne_nil (Decimal.ofNat_ne_nil n)
    have hdigits : ∀ c ∈ b :: d, Decimal.isDigit c = true := by
      intro c hc
      rw [← hbd] at hc
      exact Decimal.isDigit_ofNat hc
    obtain ⟨hb, hd⟩ := List.forall_mem_cons.mp hdigits
    rw [hbd] at hlead ⊢
    have hne : b ≠ 0x30 := fun h => hlead (congrArg some h)
    rw [List.cons_append, wholeSize, if_neg hne, if_pos hb, digitCount_append hd ht,
      List.length_cons, Nat.add_comm]

theorem numberSize_ofInt {t : GoString} (ht : NumberEnd t) (n : ℤ) :
    numberSize (Decimal.ofInt n ++ t) = some (Decimal.ofInt n).length := by
  have hfraction : fractionSize t = some 0 := by
    cases t with
    | nil => rfl
    | cons b t => exact if_neg (ht b rfl).2.1
  have hexponent : exponentSize t = some 0 := by
    cases t with
    | nil => rfl
    | cons b t => exact if_neg (not_or.mpr ⟨(ht b rfl).2.2.1, (ht b rfl).2.2.2⟩)
  have hrest : ∀ (sign whole : ℕ) (u : GoString), u.drop (sign + whole) = t →
      wholeSize (u.drop sign) = some whole → (if u.head? = some 0x2d then 1 else 0) = sign →
      numberSize u = some (sign + whole) := by
    intro sign whole u hdrop hwhole hsign
    simp [numberSize, hsign, hwhole, hdrop, hfraction, hexponent]
  by_cases hn : n < 0
  · rw [Decimal.ofInt, if_pos hn, List.length_cons, Nat.add_comm]
    refine hrest 1 _ _ ?_ (wholeSize_ofNat ht _) rfl
    rw [Nat.add_comm, List.cons_append, List.drop_succ_cons, List.drop_left]
  · have hminus : (Decimal.ofNat n.natAbs ++ t).head? ≠ some 0x2d := by
      rw [List.head?_append_of_ne_nil _ (Decimal.ofNat_ne_nil _)]
      intro h
      exact absurd (Decimal.isDigit_ofNat (List.mem_of_head? h)) (by decide)
    rw [Decimal.ofInt, if_neg hn, ← Nat.zero_add (Decimal.ofNat n.natAbs).length]
    refine hrest 0 _ _ ?_ (wholeSize_ofNat ht _) (if_neg hminus)
    rw [Nat.zero_add, List.drop_left]

/-- A lexeme with one spelling is read by it, and starts neither as a number nor as a
string does. -/
theorem lexeme_fixed {l : Lexeme} (h : l ∈ fixedLexemes) :
    ∃ c cs, l.text = c :: cs ∧
      (isSpace c = false ∧ c ≠ 0x22 ∧ c ≠ 0x2d ∧ Decimal.isDigit c = false) ∧
      ∀ t, lexeme c (cs ++ t) = some (l, cs.length + 1) := by
  simp only [fixedLexemes, List.mem_cons, List.not_mem_nil, or_false] at h
  rcases h with rfl | rfl | rfl | rfl | rfl | rfl | rfl | rfl | rfl
  · exact ⟨0x7b, [], rfl, by decide, fun t => rfl⟩
  · exact ⟨0x7d, [], rfl, by decide, fun t => rfl⟩
  · exact ⟨0x5b, [], rfl, by decide, fun t => rfl⟩
  · exact ⟨0x5d, [], rfl, by decide, fun t => rfl⟩
  · exact ⟨0x2c, [], rfl, by decide, fun t => rfl⟩
  · exact ⟨0x3a, [], rfl, by decide, fun t => rfl⟩
  · exact ⟨0x6e, lit "ull", by decide, by decide, fun t => rfl⟩
  · exact ⟨0x74, lit "rue", by decide, by decide, fun t => rfl⟩
  · exact ⟨0x66, lit "alse", by decide, by decide, fun t => rfl⟩

theorem fixedLexemes_find_none {b : UInt8} {bs : GoString}
    (h : b = 0x22 ∨ b = 0x2d ∨ Decimal.isDigit b = true) :
    fixedLexemes.find? (fun l => l.text.isPrefixOf (b :: bs)) = none := by
  rw [List.find?_eq_none]
  intro l hl hpre
  obtain ⟨c, cs, htext, ⟨-, hquote, hminus, hdigit⟩, -⟩ := lexeme_fixed hl
  rw [htext, List.isPrefixOf_cons_cons, Bool.and_eq_true, beq_iff_eq] at hpre
  obtain ⟨rfl, -⟩ := hpre
  rcases h with h | h | h
  · exact hquote h
  · exact hminus h
  · rw [hdigit] at h
    exact Bool.false_ne_true h

/-- One step of the lexer. -/
theorem lexFrom_cons {c : UInt8} {cs t : GoString} {l : Lexeme} (hspace : isSpace c = false)
    (hl : lexeme c (cs ++ t) = some (l, cs.length + 1)) :
    lexFrom 0 (c :: cs ++ t) = (lexFrom 0 t).map (l :: ·) := by
  rw [List.cons_append, lexFrom, hspace, hl]
  show (lexFrom (cs.length + 1 - 1) (cs ++ t)).bind _ = _
  rw [Nat.add_sub_cancel, lexFrom_skip]
  cases lexFrom 0 t with
  | none => rfl
  | some ls => rfl

theorem lexFrom_fixed {l : Lexeme} (h : l ∈ fixedLexemes) (t : GoString) :
    lexFrom 0 (l.text ++ t) = (lexFrom 0 t).map (l :: ·) := by
  obtain ⟨c, cs, htext, ⟨hspace, -⟩, hl⟩ := lexeme_fixed h
  rw [htext]
  exact lexFrom_cons hspace (hl t)

theorem lexFrom_str {s : GoString} (h : Plain s) (t : GoString) :
    lexFrom 0 (quote s ++ t) = (lexFrom 0 t).map (.str s :: ·) := by
  refine lexFrom_cons (by decide) ?_
  rw [lexeme, fixedLexemes_find_none (.inl rfl), List.append_assoc]
  simp only [if_true, List.singleton_append, stringFrom_quote h t, Option.map_some,
    List.length_append, List.length_singleton]

theorem lexFrom_num {t : GoString} (ht : NumberEnd t) (n : ℤ) :
    lexFrom 0 (Decimal.ofInt n ++ t) = (lexFrom 0 t).map (.num (Decimal.ofInt n) :: ·) := by
  obtain ⟨c, cs, hcs⟩ := List.exists_cons_of_ne_nil (Decimal.ofInt_ne_nil n)
  have hc : c = 0x2d ∨ Decimal.isDigit c = true := Decimal.ofInt_head hcs
  have hspace : isSpace c = false := by
    rcases hc with rfl | hc
    · decide
    · rw [← Bool.not_eq_true]
      intro h
      simp only [isSpace, Bool.or_eq_true, decide_eq_true_eq] at h
      rcases h with ((rfl | rfl) | rfl) | rfl <;> exact absurd hc (by decide)
  have hquote : c ≠ 0x22 := by
    rcases hc with rfl | hc
    · decide
    · rintro rfl
      exact absurd hc (by decide)
  rw [hcs]
  refine lexFrom_cons hspace ?_
  rw [lexeme, fixedLexemes_find_none (.inr hc)]
  simp only [if_neg hquote]
  rw [← List.cons_append, ← hcs, numberSize_ofInt ht, Option.map_some, List.take_left, hcs]
  rfl

end Json

end K3smApis
