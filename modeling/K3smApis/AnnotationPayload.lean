import K3smApis.AnnotationTypes

/-!
# The annotation payloads

`annotationpayload.go`: the strict decoder, and parsing and encoding of a report. A text
over the size bound is refused unread, so the nesting limit of encoding/json (10000) is
never met: 16384 bytes nest 8192 deep at most. Errors of encoding/json carry its own text,
which is not modelled.
-/
namespace K3smApis.Budget
open Check GoJson Json

def budgetAnnotationSchema : Int64 := 1
def maxBudgetAnnotationBytes : ℕ := 16384

/-- `foldName` of encoding/json, for comparison with ASCII names: letters in upper case,
and the two other runes that fold to one, U+017F to S and U+212A to K. -/
def foldName : GoString → GoString
  | 0xc5 :: 0xbf :: t => 0x53 :: foldName t
  | 0xe2 :: 0x84 :: 0xaa :: t => 0x4b :: foldName t
  | b :: t => (if 0x61 ≤ b ∧ b ≤ 0x7a then b - 0x20 else b) :: foldName t
  | [] => []

/-- An open object or array, and the keys an object has named. -/
structure Frame where
  obj : Bool := false
  expectKey : Bool := false
  keys : List GoString := []

/-- A value ended: an object it stands in expects a key again. -/
def valueDone : List Frame → List Frame
  | [] => []
  | f :: stack => (if f.obj then { f with expectKey := true } else f) :: stack

/-- `tok.(string)`, the empty string for any other token. -/
def tokenString : Lexeme → GoString
  | .str s => s
  | _ => []

/-- The stack after a token where a value is expected. -/
def enterToken (stack : List Frame) : Lexeme → List Frame
  | .openObj => { obj := true, expectKey := true } :: stack
  | .openArr => {} :: stack
  | .closeObj | .closeArr => valueDone stack.tail
  | _ => valueDone stack

/-- A number has to be in the range of float64 to become a token or a generic value. -/
def numberFits : Lexeme → Bool
  | .num t => Decimal.inFloatRange t
  | _ => true

/-- The token loop, from a stack of open objects and arrays, innermost first. A number
outside float64 is an error of the tokeniser. -/
def walkTokens : List Frame → List Lexeme → Check
  | _, [] => .ok ()
  | stack, tok :: toks =>
    if numberFits tok = false then .error []
    else match stack with
      | f :: rest =>
        if f.obj && f.expectKey then
          if tok = .closeObj then walkTokens (valueDone rest) toks
          else if tokenString tok ∈ f.keys then
            .error [.s "key ", .q (tokenString tok), .s " is repeated"]
          else
            walkTokens ({ f with expectKey := false, keys := tokenString tok :: f.keys } :: rest)
              toks
        else if (enterToken stack tok).isEmpty then .ok ()
        else walkTokens (enterToken stack tok) toks
      | [] =>
        if (enterToken stack tok).isEmpty then .ok () else walkTokens (enterToken stack tok) toks

/-- `Decoder.Token` leaves out commas and colons. -/
def tokens (ls : List Lexeme) : List Lexeme := ls.filter (fun l => l ≠ .comma ∧ l ≠ .colon)

/-- `checkDuplicateKeys`. -/
def checkDuplicateKeys (ls : List Lexeme) : Check := walkTokens [] (tokens ls)

/-- A loop over the elements of an array with their indices. -/
def forEachIndexed (check : ℕ → Json → Check) : ℕ → List Json → Check
  | _, [] => .ok ()
  | i, v :: vs => do check i v; forEachIndexed check (i + 1) vs

/-- `strings.TrimPrefix(path, ".")`. -/
def trimDot : Msg → Msg
  | .s "." :: path => path
  | path => path

mutual

/-- `checkExactKeys` at a path. The members of an object are visited in their order; Go
visits them in any. -/
def checkExactKeys : {α : Type} → GoType α → Msg → Json → Check
  | _, .leaf _, _, _ => .ok ()
  | _, .stringMap, _, _ => .ok ()
  | _, .ptr t, path, v => checkExactKeys t path v
  | _, .slice t, path, v =>
    match v with
    | .arr vs => forEachIndexed (fun i => checkExactKeys t (path ++ [.s "[", .d i, .s "]"])) 0 vs
    | _ => .ok ()
  | _, .struct fs _, path, v =>
    match v with
    | .obj ms => forEach (checkExactMember fs path) ms
    | _ => .ok ()

/-- One member against the fields `collectJSONFields` finds. -/
def checkExactMember : {R : Type} → Fields R → Msg → GoString × Json → Check
  | _, .nil, path, m => .error (trimDot path ++ [.s ": unknown field ", .q m.1])
  | _, .field name _ t fs, path, m =>
    if m.1 = name then checkExactKeys t (path ++ [.s ".", .str m.1]) m.2
    else checkExactMember fs path m
  | _, .embed es _ fs, path, m =>
    if m.1 ∈ es.names then checkExactMember es path m else checkExactMember fs path m

end

/-- An error that wraps `ErrInvalidBudgetAnnotation`. -/
def invalidPayload (detail : Msg) : BudgetError :=
  ⟨[.budgetAnnotationInvalid], detail⟩

/-- A step of encoding/json, whose failure is an invalid annotation. -/
def orInvalid {α : Type} : Option α → Except BudgetError α
  | some a => .ok a
  | none => .error (invalidPayload [])

/-- The raw schema of a payload: `json.Unmarshal` into a struct with that one field. The
last member whose name folds to "schema" wins. -/
def probeSchema : Json → Option (Option Json)
  | .null => some none
  | .obj ms =>
    some ((ms.filter (fun m => foldName m.1 = foldName (lit "schema"))).getLast?.map Prod.snd)
  | _ => none

/-- Where each lexeme of a text starts and ends. -/
def lexSpans : (pos skip : ℕ) → GoString → Option (List (ℕ × ℕ))
  | _, _, [] => some []
  | pos, skip + 1, _ :: bs => lexSpans (pos + 1) skip bs
  | pos, 0, b :: bs =>
    if Json.isSpace b then lexSpans (pos + 1) 0 bs
    else do
      let (_, n) ← lexeme b bs
      let spans ← lexSpans (pos + 1) (n - 1) bs
      some ((pos, pos + n) :: spans)

/-- The members of an object whose first key is lexeme `i`: the key, the first lexeme of the
value and how many the value has. -/
def memberSpans : ℕ → List (GoString × Json) → List (GoString × ℕ × ℕ)
  | _, [] => []
  | i, m :: ms => (m.1, i + 2, m.2.lexemes.length) ::
      memberSpans (i + m.2.lexemes.length + 3) ms

/-- The text of the raw schema as it stands in the payload. -/
def schemaText (value : GoString) : Option GoString := do
  let Json.obj ms ← Json.parse value | none
  let spans ← lexSpans 0 0 value
  let (_, first, count) ←
    ((memberSpans 1 ms).filter (fun m => foldName m.1 = foldName (lit "schema"))).getLast?
  let (start, _) ← spans[first]?
  let (_, stop) ← spans[first + count - 1]?
  some ((value.take stop).drop start)

/-- `%.32s` and the like: the first `n` runes of a text. -/
def firstRunes : ℕ → GoString → GoString
  | 0, _ | _, [] => []
  | n + 1, b :: bs =>
    let width := if b < 0x80 then 1 else max 1 (runeSize b bs)
    (b :: bs).take width ++ firstRunes n ((b :: bs).drop width)

/-- The checks of the raw schema, which stands in the payload as `raw`. Its text is 1 exactly
when it is the number 1. -/
def checkSchema (raw : GoString) : Option Json → Except BudgetError Unit
  | none | some .null => .error ⟨[.unknownBudgetSchema], [.s "payload has no schema"]⟩
  | some v =>
    refuseIf (v.print ≠ Decimal.ofInt budgetAnnotationSchema.toInt)
      ⟨[.unknownBudgetSchema], [.s "schema ", .str (firstRunes 32 raw), .s ", want ",
        .str (Decimal.ofInt budgetAnnotationSchema.toInt)]⟩

example : schemaText (lit "\x7b \"Schema\" : [ 1,\"\\u0032\" ] , \"level\":2\x7d") =
    some (lit "[ 1,\"\\u0032\" ]") := by
  decide +kernel

/-- The value a text starts with, and the lexemes after it: `Decoder.Decode`. -/
def firstValue (value : GoString) : Option (Json × List Lexeme) := do
  let ls ← lex value
  readValue ls.length ls

/-- `json.Unmarshal` into an `any`: numbers have to be in the range of float64. -/
def genericValue (value : GoString) : Option Json :=
  (Json.parse value).filter (fun v => v.lexemes.all numberFits)

/-- `decodeBudgetAnnotation` into a variable of type `t`. -/
def decodeBudgetAnnotation {α : Type} (t : GoType α) (value : GoString) : Except BudgetError α := do
  refuseIf (maxBudgetAnnotationBytes < value.length)
    ⟨[.budgetAnnotationInvalid, .budgetAnnotationTooLarge],
      [.s "payload is ", .d value.length, .s " bytes, at most ", .d maxBudgetAnnotationBytes]⟩
  let schema ← orInvalid ((Json.parse value).bind probeSchema)
  checkSchema ((schemaText value).getD []) schema
  let (v, rest) ← orInvalid (firstValue value)
  let x ← orInvalid (t.decode foldName t.zero v)
  refuseIf (rest ≠ []) (invalidPayload [.s "trailing data after the payload"])
  let ls ← orInvalid (lex value)
  wrapped [.budgetAnnotationInvalid] (checkDuplicateKeys ls)
  let generic ← orInvalid (genericValue value)
  wrapped [.budgetAnnotationInvalid] (checkExactKeys t [] generic)
  .ok x

/-- Adds a windowed count to an entry. A sum that would overflow saturates at the largest
int64; one below the smallest wraps. -/
def addCount (a b : Int64) : Int64 :=
  if 0 < b ∧ Int64.maxValue - b < a then Int64.maxValue else a + b

/-- The variables of the loop of `mergeUnknownWindows`: the entries so far, and the map from a
window to the index of its entry of unknown reason. -/
structure Merging where
  out : List WindowCount := []
  index : List (Wire CounterWindow × ℕ) := []

/-- One pass of the loop: an unknown reason is added to the entry of its window, if the map
has one. -/
def Merging.add (s : Merging) (w : WindowCount) : Merging :=
  if w.reason ≠ word .unknown then { s with out := s.out ++ [w] }
  else match s.index.lookup w.window with
    | none => ⟨s.out ++ [w], (w.window, s.out.length) :: s.index⟩
    | some i =>
      { s with out := s.out.modify i (fun u => { u with count := addCount u.count w.count }) }

/-- `mergeUnknownWindows`; nil when there is no entry. -/
def mergeUnknownWindows (ws : Slice WindowCount) : Slice WindowCount :=
  appended (ws.list.foldl Merging.add {}).out

/-- `NodeBudgetReport.Validate`. -/
def NodeBudgetReport.validate (r : NodeBudgetReport) : Except BudgetError Unit := do
  refuseIf (r.schema ≠ budgetAnnotationSchema)
    ⟨[.unknownBudgetSchema], [.s "report schema ", .d r.schema.toInt, .s ", want ",
      .d budgetAnnotationSchema.toInt]⟩
  wrapped [.budgetAnnotationInvalid, .invalidNodeBudget] r.observation.validate

/-- One band with its windowed counts merged. -/
def BandCounters.mergedWindows (c : BandCounters) : BandCounters :=
  { c with windows := mergeUnknownWindows c.windows }

/-- The loop of `ParseNodeBudgetReport` over the bands. -/
def NodeBudgetReport.merged (r : NodeBudgetReport) : NodeBudgetReport :=
  { r with observation := { r.observation with
      counters := r.observation.counters.map (List.map BandCounters.mergedWindows) } }

/-- `ParseNodeBudgetReport`. -/
def parseNodeBudgetReport (value : GoString) : Except BudgetError NodeBudgetReport := do
  let r ← decodeBudgetAnnotation NodeBudgetReport.goType value
  r.merged.validate
  .ok r.merged

/-- `encodeBudgetAnnotation`. -/
def encodeBudgetAnnotation {α : Type} (t : GoType α) (x : α) : Except BudgetError GoString :=
  let b := (t.encode x).print
  if maxBudgetAnnotationBytes < b.length then
    .error ⟨[.budgetAnnotationInvalid, .budgetAnnotationTooLarge],
      [.s "payload is ", .d b.length, .s " bytes, at most ", .d maxBudgetAnnotationBytes]⟩
  else .ok b

/-- `NodeBudgetReport.Encode`. -/
def NodeBudgetReport.encode (r : NodeBudgetReport) : Except BudgetError GoString := do
  r.validate
  let s ← encodeBudgetAnnotation NodeBudgetReport.goType r
  let _ ← parseNodeBudgetReport s
  .ok s

end K3smApis.Budget
