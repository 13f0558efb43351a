import K3smApis.RuneText

/-!
# The grammar of go.mod files

Tokens, blocks and replace directives of a go.mod file. No token goes on over a line feed,
so a file is read line by line: a line is its tokens and possibly a comment behind them.
-/
namespace K3smApis.ModFile

/-- What the grammar takes from elsewhere: `unicode.IsPrint` beyond ASCII,
`strconv.Unquote`, and the versions the go command accepts. -/
structure Rules where
  printable : Char → Bool
  unquote : Text → Option Text
  isVersion : Text → Bool

def punctuation : List Char := ['(', ')', '[', ']', '\x7b', '\x7d', ',']

/-- A rune of a bare token. -/
def Rules.isIdent (g : Rules) (c : Char) : Bool :=
  c ∉ punctuation && !Text.isSpace c &&
    if c.toNat < 0x80 then 0x20 < c.toNat && c.toNat < 0x7f else g.printable c

inductive Token where
  | punct (c : Char)
  | word (w : Text)
  /-- A string with its quotes. -/
  | quoted (q : Text)
  deriving DecidableEq

def Token.text : Token → Text
  | .punct c => [c]
  | .word w => w
  | .quoted q => q

def Token.isQuoted : Token → Bool
  | .quoted _ => true
  | _ => false

/-- Whether the text behind an opening quote ends with the quote that closes it. -/
def closes (quote : Char) : Text → Bool
  | [] => false
  | [c] => c = quote
  | c :: d :: t =>
    if c = quote then false
    else if c = '\\' ∧ quote ≠ '\x60' then closes quote t
    else closes quote (d :: t)

def IsQuoted (q : Text) : Prop :=
  ∃ quote body, (quote = '\x22' ∨ quote = '\x60') ∧ q = quote :: body ∧ closes quote body = true

def slashes : Text := ['/', '/']

/-- A bare token `w` in front of `t`: it starts with no quote, goes on as far as it can, and
neither kind of comment starts inside it. -/
structure IsWord (g : Rules) (w t : Text) : Prop where
  ne_nil : w ≠ []
  ident : ∀ c ∈ w, g.isIdent c = true
  bare : w.head? ≠ some '\x22' ∧ w.head? ≠ some '\x60'
  whole : ∀ a b, w = a ++ b → b ≠ [] → ¬slashes <+: b ++ t ∧ ¬['/', '*'] <+: b ++ t
  stop : (∀ c ∈ t.head?, g.isIdent c = false) ∨ slashes <+: t

/-- A token that may stand in front of `t`. -/
def Starts (g : Rules) : Token → Text → Prop
  | .punct c, _ => c ∈ punctuation
  | .word w, t => IsWord g w t
  | .quoted q, _ => IsQuoted q

/-- A line, its tokens, and whether a comment ends it. -/
inductive Lexes (g : Rules) : Text → List Token → Bool → Prop
  | done : Lexes g [] [] false
  | comment (t : Text) : Lexes g (slashes ++ t) [] true
  | blank {c : Char} {t : Text} {ts : List Token} {cm : Bool}
      (hc : c = ' ' ∨ c = '\t' ∨ c = '\r') (h : Lexes g t ts cm) : Lexes g (c :: t) ts cm
  | token {tok : Token} {t : Text} {ts : List Token} {cm : Bool} (hstart : Starts g tok t)
      (h : Lexes g t ts cm) : Lexes g (tok.text ++ t) (tok :: ts) cm

structure Line where
  raw : Text
  tokens : List Token
  comment : Bool
  deriving DecidableEq

/-- A line that is a comment and nothing else. -/
def Line.isComment (l : Line) : Bool := l.tokens.isEmpty && l.comment

/-- A replace directive: where it stands, its arguments, the module or path it puts in the
module's place, and whether it is explained by a comment. -/
structure Directive where
  line : Line
  opener : Option Line
  args : List Token
  target : Text
  commented : Bool
  deriving DecidableEq

def replaceKey : Text := "replace".toList
def arrow : Text := ['=', '>']

/-- The text a token stands for. -/
def Rules.value (g : Rules) : Token → Option Text
  | .quoted q => g.unquote q
  | tok => if tok.text.any (· ∈ ['\x22', '\x27', '\x60']) then none else some tok.text

/-- A replacement that is a directory, in any system's syntax. -/
def isDirectoryPath (t : Text) : Bool :=
  t = ".".toList || t = "..".toList || t.hasPrefix "./".toList || t.hasPrefix "../".toList ||
    t.hasPrefix "/".toList || t.hasPrefix ".\\".toList || t.hasPrefix "..\\".toList ||
    t.hasPrefix "\\".toList || ((t.head?.any Char.isAlpha) && t[1]? = some ':')

/-- The part of a directive behind the arrow: a directory, or a module and its version. -/
def Rules.replacement (g : Rules) : List Token → Option Text
  | [tok] => (g.value tok).filter (fun t => isDirectoryPath t)
  | [tok, version] =>
    if (g.value version).any g.isVersion then (g.value tok).filter (fun t => !isDirectoryPath t)
    else none
  | _ => none

/-- `module [version] => replacement` -/
def Rules.parseReplace (g : Rules) : List Token → Option Text
  | path :: tok :: rest =>
    if tok = .word arrow then (g.value path).bind (fun _ => g.replacement rest)
    else match rest with
      | tok' :: rest =>
        if tok' = .word arrow ∧ (g.value tok).any g.isVersion then
          (g.value path).bind (fun _ => g.replacement rest)
        else none
      | [] => none
  | _ => none

/-- The block a line stands in. A block of replace directives has its opening line, whether
that is right below a comment, and whether no entry has been read yet. -/
inductive Block where
  | top
  | replaces (opener : Line) (commented first : Bool)
  | others

/-- A line that closes a block, with nothing but a comment behind the parenthesis. -/
def closeBlock (ts : List Token) : Option (Block × List Directive) :=
  if ts = [.punct ')'] then some (.top, []) else none

/-- One line in a block; `above` says whether the line above it is a comment. -/
def Rules.parseLine (g : Rules) (b : Block) (above : Bool) (l : Line) :
    Option (Block × List Directive) :=
  match l.tokens with
  | [] => some (b, [])
  | tok :: ts =>
    match b with
    | .top =>
      if ts ≠ [] ∧ (tok :: ts).getLast? = some (.punct '(') then
        some
          (if tok :: ts.dropLast = [.word replaceKey] then .replaces l above true else .others, [])
      else if 2 ≤ ts.length ∧ [.punct '(', .punct ')'] <:+ ts then some (.top, [])
      else if tok = .word replaceKey then
        (g.parseReplace ts).map (fun target => (.top, [⟨l, none, ts, target, above⟩]))
      else some (.top, [])
    | .replaces opener commented first =>
      if tok = .punct ')' then closeBlock (tok :: ts)
      else (g.parseReplace (tok :: ts)).map (fun target => (.replaces opener commented false,
        [⟨l, some opener, tok :: ts, target, above || (first && commented)⟩]))
    | .others => if tok = .punct ')' then closeBlock (tok :: ts) else some (.others, [])

/-- The directives of the lines from here on. -/
def Rules.parse (g : Rules) : Block → Bool → List Line → Option (List Directive)
  | .top, _, [] => some []
  | _, _, [] => none
  | b, above, l :: ls => (g.parseLine b above l).bind (fun r =>
      (g.parse r.1 l.isComment ls).map (fun ds => r.2 ++ ds))

/-- A text is a go.mod file with these replace directives. -/
def Rules.Accepts (g : Rules) (text : Text) (ds : List Directive) : Prop :=
  ∃ ls : List Line, ls.map Line.raw = text.lines ∧
    (∀ l ∈ ls, Lexes g l.raw l.tokens l.comment) ∧ g.parse .top false ls = some ds

variable {g : Rules}

theorem IsWord.head {w t : Text} (h : IsWord g w t) :
    ∃ c r, w = c :: r ∧ g.isIdent c = true ∧ c ≠ '\x22' ∧ c ≠ '\x60' := by
  obtain ⟨c, r, rfl⟩ := List.exists_cons_of_ne_nil h.ne_nil
  exact ⟨c, r, rfl, h.ident c (by simp), by simpa using h.bare.1, by simpa using h.bare.2⟩

/-- The end of a line may be cut off behind a bare token. -/
theorem IsWord.of_prefix {w t t' : Text} (h : IsWord g w t) (hpre : t' <+: t)
    (hcomment : slashes <+: t → t' = [] ∨ slashes <+: t') : IsWord g w t' where
  ne_nil := h.ne_nil
  ident := h.ident
  bare := h.bare
  whole a b hab hb :=
    ⟨fun hs => (h.whole a b hab hb).1 (hs.trans ((List.prefix_append_right_inj b).mpr hpre)),
      fun hs => (h.whole a b hab hb).2 (hs.trans ((List.prefix_append_right_inj b).mpr hpre))⟩
  stop := by
    rcases h.stop with hstop | hslash
    · left
      intro c hc
      obtain ⟨r, rfl⟩ := hpre
      cases t' with
      | nil => cases hc
      | cons d t' => exact hstop c hc
    · rcases hcomment hslash with rfl | hs
      · exact .inl (by simp)
      · exact .inr hs

theorem Starts.of_prefix {tok : Token} {t t' : Text} (h : Starts g tok t) (hpre : t' <+: t)
    (hcomment : slashes <+: t → t' = [] ∨ slashes <+: t') : Starts g tok t' := by
  cases tok with
  | punct c => exact h
  | word w => exact IsWord.of_prefix h hpre hcomment
  | quoted q => exact h

theorem closes_getLast {quote : Char} {t : Text} (h : closes quote t = true) :
    t.getLast? = some quote := by
  induction t using closes.induct quote with
  | case1 => simp [closes] at h
  | case2 c => simpa [closes] using h
  | case3 d t => simp [closes] at h
  | case4 c d t hc hesc ih =>
    rw [closes, if_neg hc, if_pos hesc] at h
    have hne : t ≠ [] := by
      rintro rfl
      simp [closes] at h
    rw [List.getLast?_cons_of_ne_nil (by simp), List.getLast?_cons_of_ne_nil hne]
    exact ih h
  | case5 c d t hc hesc ih =>
    rw [closes, if_neg hc, if_neg hesc] at h
    rw [List.getLast?_cons_of_ne_nil (by simp)]
    exact ih h

end K3smApis.ModFile
