import K3smApis.RuneText
import K3smApis.CivilTime

/-!
# The dependency cooldown

`cooldown_verify` of hack/verify-deps.sh: verify-plan, the fetch, verify-times and
cooldown, which hand lines of text to each other. verify-plan takes a line whose module
key the base lock has as unchanged, whatever time it records, so a changed time escapes
the re-read. Files are lists of lines; timestamps are whole seconds and the clock is an
exact rational.
-/
namespace K3smApis.Deps

open Civil

/-- A space of Python's `str.strip` and `str.split`. -/
def isSpace (c : Char) : Bool := Text.isSpace c || (0x1c ≤ c.toNat && c.toNat ≤ 0x1f)

/-- `str.strip`. -/
def strip (t : Text) : Text := (t.dropWhile isSpace).rdropWhile isSpace

/-- `str.split`. -/
def words (t : Text) : List Text := (t.splitOnP isSpace).filter (· ≠ [])

/-- `t.split(sep, 1)` of a text that holds the separator. -/
def cut (sep : Text) : Text → Option (Text × Text)
  | [] => none
  | c :: t =>
    if sep <+: c :: t then some ([], (c :: t).drop sep.length)
    else (cut sep t).map (fun p => (c :: p.1, p.2))

/-- A module line: the module, and the module and version that are built for it. -/
structure ModuleLine where
  path : Text
  version : Text
  effectivePath : Text
  effectiveVersion : Text
  isLocal : Bool
  deriving DecidableEq, Repr

/-- `parse_key`. -/
def parseKey (key : Text) : Option ModuleLine :=
  match words key with
  | [p, v] => some ⟨p, v, p, v, false⟩
  | [p, v, arrow, q] => if arrow = "=>".toList then some ⟨p, v, q, [], true⟩ else none
  | [p, v, arrow, q, w] => if arrow = "=>".toList then some ⟨p, v, q, w, false⟩ else none
  | _ => none

/-- A module key and the time recorded for it. -/
abbrev LockEntry := Text × Text

inductive LockError where
  /-- No commit time on a line. -/
  | noTime (line : ℕ)
  /-- A malformed module line. -/
  | malformed (key : Text)
  deriving DecidableEq, Repr

/-- What stands between a module key and its time. -/
def separator : Text := " # ".toList

/-- One line of a lock file; a blank line or a comment has no entry. -/
def lockLine (n : ℕ) (line : Text) : Except LockError (Option LockEntry) :=
  if strip line = [] ∨ (line.dropWhile isSpace).head? = some '#' then .ok none
  else
    match cut separator line with
    | none => .error (.noTime n)
    | some (key, tm) =>
      match parseKey (strip key) with
      | none => .error (.malformed (strip key))
      | some _ => .ok (some (strip key, strip tm))

/-- `read_lock` from line `n` on. -/
def readLockFrom (n : ℕ) : List Text → Except LockError (List LockEntry)
  | [] => .ok []
  | line :: lines => do
    let e ← lockLine n line
    let es ← readLockFrom (n + 1) lines
    return e.toList ++ es

/-- `read_lock`. -/
def readLock (lines : List Text) : Except LockError (List LockEntry) := readLockFrom 1 lines

/-- The line `"%s # %s"` of an entry. -/
def entryLine (e : LockEntry) : Text := e.1 ++ separator ++ e.2

/-- `HEADER`. -/
def header : List Text :=
  ["# Module graph lock for hack/verify-deps.sh: one line per module in",
    "# `go list -m all` (main module excluded), each with the commit time the",
    "# module proxy records for the version that is built (not its first",
    "# publication; `local` for a filesystem replacement).",
    "# Regenerate with: hack/verify-deps.sh --update"].map String.toList

/-- What the check finds outside the repository: the digits `\d` of Python's regexps,
the clock, and the `Time` of the proxy's `.info` for a module version, none when it
cannot be fetched or read. -/
structure World where
  isDecimal : Char → Bool
  now : ℚ
  proxy : Text → Text → Option Text

/-- The text behind an optional fraction `\.\d+`. -/
def zonePart (isDecimal : Char → Bool) : Text → Option Text
  | '.' :: t => if t.takeWhile isDecimal = [] then none else some (t.dropWhile isDecimal)
  | t => some t

/-- The offset in seconds of `Z|[+-]\d{2}:\d{2}`; a day or more is refused. -/
def zoneOffset : Text → Option ℤ
  | ['Z'] => some 0
  | [sign, h0, h1, ':', m0, m1] =>
    let seconds := 3600 * number [h0, h1] + 60 * number [m0, m1]
    if [h0, h1, m0, m1].all Char.isDigit && decide (seconds < 86400) then
      if sign = '+' then some seconds else if sign = '-' then some (-seconds) else none
    else none
  | _ => none

/-- The text the regexp of `parse_time` looks at: its `$` allows a final newline. -/
def chomp (t : Text) : Text := if t.getLast? = some '\n' then t.dropLast else t

/-- The Unix seconds of an RFC 3339 time, its fraction dropped. -/
def parseStamp (isDecimal : Char → Bool) (t : Text) : Option ℤ :=
  match t with
  | y0 :: y1 :: y2 :: y3 :: '-' :: m0 :: m1 :: '-' :: d0 :: d1 :: 'T' :: h0 :: h1 :: ':' ::
      i0 :: i1 :: ':' :: s0 :: s1 :: zone =>
    if [y0, y1, y2, y3, m0, m1, d0, d1, h0, h1, i0, i1, s0, s1].all Char.isDigit then
      let date : Date := ⟨number [y0, y1, y2, y3], number [m0, m1], number [d0, d1]⟩
      let hour := number [h0, h1]
      let minute := number [i0, i1]
      let second := number [s0, s1]
      if 1 ≤ date.year ∧ date.Exists ∧ hour < 24 ∧ minute < 60 ∧ second < 60 then
        ((zonePart isDecimal zone).bind zoneOffset).map (fun offset =>
          86400 * date.unixDay + 3600 * hour + 60 * minute + second - offset)
      else none
    else none
  | _ => none

/-- `parse_time`. -/
def parseTime (isDecimal : Char → Bool) (t : Text) : Option ℤ := parseStamp isDecimal (chomp t)

/-- A line of the plan: an entry, and the module version to re-read it for. -/
structure PlanLine where
  entry : LockEntry
  reread : Option (Text × Text)
  deriving DecidableEq, Repr

inductive Failure where
  | unreadableLock (e : LockError)
  | network (module version : Text)
  | brokenPlan (entry : LockEntry)
  | timeMismatch (entries : List LockEntry)
  | unreadableExempt (line : ℕ)
  | cooldown (entries : List LockEntry)
  deriving DecidableEq, Repr

/-- The keys of the base lock; none without a base lock or with a malformed one. -/
def baseKeys (base : Option (List Text)) : List Text :=
  match base with
  | none => []
  | some lines =>
    match readLock lines with
    | .ok es => es.map Prod.fst
    | .error _ => []

/-- The plan of one entry: a filesystem replacement or a key of the base keeps its time. -/
def planLine (keys : List Text) (e : LockEntry) : PlanLine :=
  match parseKey e.1 with
  | none => ⟨e, none⟩
  | some m =>
    if m.isLocal ∨ e.1 ∈ keys then ⟨e, none⟩
    else ⟨e, some (m.effectivePath, m.effectiveVersion)⟩

/-- `cmd_verify_plan`. -/
def verifyPlan (base : Option (List Text)) (lock : List Text) : Except Failure (List PlanLine) :=
  match readLock lock with
  | .error e => .error (.unreadableLock e)
  | .ok es => .ok (es.map (planLine (baseKeys base)))

/-- `fetch_infos`, then the reading half of `cmd_verify_times`: each entry with the
proxy's time if it is re-read. The plan is a file of tab-separated fields, so a tab in
one breaks it. -/
def fetchLine (w : World) (l : PlanLine) : Except Failure (LockEntry × Option Text) :=
  if '\t' ∈ l.entry.1 ∨ '\t' ∈ l.entry.2 then .error (.brokenPlan l.entry)
  else
    match l.reread with
    | none => .ok (l.entry, none)
    | some (p, v) =>
      match w.proxy p v with
      | none => .error (.network p v)
      | some tm => .ok (l.entry, some tm)

/-- Whether the time of an entry agrees with the one re-read for it. -/
def timeAgrees (w : World) (l : LockEntry × Option Text) : Bool :=
  match l.2 with
  | none => true
  | some tm =>
    match parseTime w.isDecimal l.1.2, parseTime w.isDecimal tm with
    | some a, some b => |a - b| ≤ 3600
    | _, _ => false

/-- `cmd_verify_times`: the lines of verified.lock. -/
def verifyTimes (w : World) (plan : List PlanLine) : Except Failure (List Text) := do
  let lines ← plan.mapM (fetchLine w)
  match lines.filter (fun l => !timeAgrees w l) with
  | [] => return header ++ lines.map (fun l => entryLine (l.1.1, l.2.getD l.1.2))
  | bad => throw (.timeMismatch (bad.map Prod.fst))

/-- One line of the exemption file. -/
def exemptLine (n : ℕ) (line : Text) : Except Failure (Option (Text × Text)) :=
  if strip line = [] ∨ (strip line).head? = some '#' then .ok none
  else
    match words line with
    | p :: v :: _ :: _ => .ok (some (p, v))
    | _ => .error (.unreadableExempt n)

/-- `read_exempt` from line `n` on: the exempted module versions. -/
def readExempt (n : ℕ) : List Text → Except Failure (List (Text × Text))
  | [] => .ok []
  | line :: lines => do
    let e ← exemptLine n line
    let es ← readExempt (n + 1) lines
    return e.toList ++ es

/-- `COOLDOWN_DAYS`. -/
def cooldownDays : ℚ := 14

/-- Whether an entry passes the age check. -/
def clearsCooldown (w : World) (exempt : List (Text × Text)) (e : LockEntry) : Bool :=
  match parseKey e.1 with
  | none => false
  | some m =>
    if m.isLocal then e.2 = "local".toList
    else
      match parseTime w.isDecimal e.2 with
      | none => false
      | some ts =>
        if "0001-01-01".toList <+: e.2 ∨ (w.now - ts) / 86400 < cooldownDays then
          (m.effectivePath, m.effectiveVersion) ∈ exempt
        else true

/-- `cmd_cooldown`. -/
def cooldown (w : World) (exemptFile lines : List Text) : Except Failure Unit :=
  match readLock lines with
  | .error e => .error (.unreadableLock e)
  | .ok es => do
    let exempt ← readExempt 1 exemptFile
    match es.filter (fun e => !clearsCooldown w exempt e) with
    | [] => return ()
    | bad => throw (.cooldown bad)

/-- `cooldown_verify`. -/
def cooldownVerify (w : World) (base : Option (List Text)) (lock exemptFile : List Text) :
    Except Failure Unit := do
  let plan ← verifyPlan base lock
  let verified ← verifyTimes w plan
  cooldown w exemptFile verified

/-- A text that neither starts nor ends with a space. -/
structure Stripped (t : Text) : Prop where
  head : ∀ c ∈ t.head?, isSpace c = false
  last : ∀ c ∈ t.getLast?, isSpace c = false

theorem Stripped.dropWhile_eq {t : Text} (h : Stripped t) : t.dropWhile isSpace = t := by
  cases t with
  | nil => rfl
  | cons c t => exact List.dropWhile_cons_of_neg (by simp [h.head c (by simp)])

theorem Stripped.rdropWhile_eq {t : Text} (h : Stripped t) : t.rdropWhile isSpace = t := by
  rw [List.rdropWhile_eq_self_iff]
  intro hne
  simp [h.last (t.getLast hne) (by simp [List.getLast?_eq_some_getLast hne])]

theorem Stripped.strip_eq {t : Text} (h : Stripped t) : strip t = t := by
  rw [strip, h.dropWhile_eq, h.rdropWhile_eq]

theorem strip_stripped (t : Text) : Stripped (strip t) := by
  constructor
  · intro c hc
    obtain ⟨r, hr⟩ := List.rdropWhile_prefix isSpace (t.dropWhile isSpace)
    have hne : t.dropWhile isSpace ≠ [] := by
      intro hnil
      simp [strip, hnil] at hc
    have hhead : (t.dropWhile isSpace).head? = some c := by
      rw [← hr, List.head?_append_of_ne_nil]
      · exact hc
      · intro hnil
        rw [strip, hnil] at hc
        simp at hc
    have hnot := List.head_dropWhile_not isSpace hne
    rw [List.head?_eq_some_head hne] at hhead
    simpa [Option.some.inj hhead] using hnot
  · intro c hc
    have hne : strip t ≠ [] := by
      intro hnil
      simp [hnil] at hc
    rw [List.getLast?_eq_some_getLast hne] at hc
    have hnot := List.rdropWhile_last_not isSpace (t.dropWhile isSpace) hne
    rw [← Option.mem_some.mp hc]
    simpa [strip] using hnot

theorem strip_head {c : Char} {t : Text} (hc : isSpace c = false) :
    (strip (c :: t)).head? = some c := by
  have hfront : (c :: t).dropWhile isSpace = c :: t := List.dropWhile_cons_of_neg (by simp [hc])
  have hne : (c :: t).rdropWhile isSpace ≠ [] := by
    rw [ne_eq, List.rdropWhile_eq_nil_iff]
    intro hall
    have := hall c (by simp)
    simp [hc] at this
  obtain ⟨r, hr⟩ := List.rdropWhile_prefix isSpace (c :: t)
  rw [strip, hfront]
  have hhead : ((c :: t).rdropWhile isSpace ++ r).head? = ((c :: t).rdropWhile isSpace).head? :=
    List.head?_append_of_ne_nil _ hne
  rw [← hhead, hr]
  rfl

/-- A cut is made at the first separator. -/
theorem cut_some {sep t a b : Text} (hsep : sep ≠ []) (h : cut sep t = some (a, b)) :
    t = a ++ sep ++ b ∧ ¬sep <:+: a := by
  induction t generalizing a with
  | nil => simp [cut] at h
  | cons c t ih =>
    rw [cut] at h
    split_ifs at h with hp
    · simp only [Option.some.injEq, Prod.mk.injEq] at h
      obtain ⟨rfl, rfl⟩ := h
      refine ⟨(List.prefix_iff_eq_append.mp hp).symm, ?_⟩
      rwa [List.infix_nil]
    · simp only [Option.map_eq_some_iff, Prod.mk.injEq, Prod.exists] at h
      obtain ⟨a', b', hcut, rfl, rfl⟩ := h
      obtain ⟨rfl, hnot⟩ := ih hcut
      refine ⟨by simp, ?_⟩
      rw [List.infix_cons_iff]
      rintro (hpre | hin)
      · exact hp (hpre.trans ⟨sep ++ b', by simp⟩)
      · exact hnot hin

theorem dropWhile_append_of_ne_nil {a b : Text} (h : a.dropWhile isSpace ≠ []) :
    (a ++ b).dropWhile isSpace = a.dropWhile isSpace ++ b := by
  induction a with
  | nil => exact absurd rfl h
  | cons c a ih =>
    by_cases hc : isSpace c = true
    · rw [List.dropWhile_cons_of_pos hc] at h
      rw [List.cons_append, List.dropWhile_cons_of_pos hc, List.dropWhile_cons_of_pos hc, ih h]
    · rw [List.cons_append, List.dropWhile_cons_of_neg hc, List.dropWhile_cons_of_neg hc,
        List.cons_append]

theorem strip_concat {l : Text} {c : Char} (hc : isSpace c = true) :
    strip (l ++ [c]) = strip l := by
  by_cases hblank : l.dropWhile isSpace = []
  · have hall : ∀ d ∈ l, isSpace d = true := List.dropWhile_eq_nil_iff.mp hblank
    have hall' : (l ++ [c]).dropWhile isSpace = [] := by
      rw [List.dropWhile_eq_nil_iff]
      intro d hd
      rcases List.mem_append.mp hd with hd | hd
      · exact hall d hd
      · rwa [List.mem_singleton.mp hd]
    rw [strip, strip, hblank, hall']
  · rw [strip, dropWhile_append_of_ne_nil hblank, List.rdropWhile_concat_pos _ _ _ hc, strip]

/-- What a line of a lock with an entry says of its key. -/
structure IsKey (k : Text) : Prop where
  stripped : Stripped k
  ne_nil : k ≠ []
  noHash : k.head? ≠ some '#'
  noSeparator : ¬separator <:+: k
  parsed : ∃ m, parseKey k = some m

theorem lockLine_some {n : ℕ} {line : Text} {e : LockEntry} (h : lockLine n line = .ok (some e)) :
    IsKey e.1 := by
  unfold lockLine at h
  split_ifs at h with hskip
  · cases h
  cases hcut : cut separator line with
  | none => simp [hcut] at h
  | some p =>
    obtain ⟨key, tm⟩ := p
    simp only [hcut] at h
    cases hkey : parseKey (strip key) with
    | none => simp [hkey] at h
    | some m =>
      simp only [hkey, Except.ok.injEq, Option.some.injEq] at h
      subst h
      obtain ⟨hline, hsep⟩ := cut_some (by decide) hcut
      have hne : strip key ≠ [] := by
        intro hnil
        rw [hnil] at hkey
        exact absurd hkey (by simp [parseKey, words])
      refine ⟨strip_stripped key, hne, ?_, ?_, m, hkey⟩
      · -- the line's first rune behind its spaces is the key's
        intro hhash
        have hfront : key.dropWhile isSpace ≠ [] := by
          intro hnil
          exact hne (by rw [strip, hnil]; rfl)
        obtain ⟨r, hr⟩ := List.rdropWhile_prefix isSpace (key.dropWhile isSpace)
        have hhead : (key.dropWhile isSpace).head? = some '#' := by
          rw [← hr]
          exact (List.head?_append_of_ne_nil _ hne).trans hhash
        refine hskip (.inr ?_)
        rw [hline, List.append_assoc, dropWhile_append_of_ne_nil hfront,
          List.head?_append_of_ne_nil _ hfront]
        exact hhead
      · intro hin
        refine hsep (hin.trans ?_)
        exact (List.rdropWhile_prefix _ _).isInfix.trans (List.dropWhile_suffix _).isInfix

/-- An entry's line cuts at its own separator, or inside the key, in front of a key that
ends in a hash sign. -/
theorem cut_entryLine {k : Text} (h : ¬separator <:+: k) (t : Text) :
    cut separator (k ++ separator ++ t) = some (k, t) ∨
      ∃ k', cut separator (k ++ separator ++ t) = some (k', "# ".toList ++ t) := by
  induction k with
  | nil => exact .inl rfl
  | cons c k ih =>
    have hk : ¬separator <:+: k := fun hin => h (hin.trans (List.suffix_cons c k).isInfix)
    rw [List.cons_append, List.cons_append, cut]
    split_ifs with hp
    · -- the separator starts in the key and ends behind it
      match k, h, hp with
      | [], _, hp => simp [separator] at hp
      | [d], _, hp =>
        obtain ⟨rfl, rfl⟩ : ' ' = c ∧ '#' = d := by simpa [separator] using hp
        exact .inr ⟨[], by simp [separator]⟩
      | d :: d' :: k, h, hp =>
        obtain ⟨rfl, rfl, rfl⟩ : ' ' = c ∧ '#' = d ∧ ' ' = d' := by simpa [separator] using hp
        exact absurd ⟨[], k, by simp [separator]⟩ h
    · rcases ih hk with hcut | ⟨k', hcut⟩
      · exact .inl (by rw [hcut]; rfl)
      · exact .inr ⟨c :: k', by rw [hcut]; rfl⟩

/-- The line written for a key reads back as the key with its time, or as an entry whose
time starts with a hash sign. -/
theorem lockLine_entryLine {n : ℕ} {k t : Text} {x : Option LockEntry} (hk : IsKey k)
    (h : lockLine n (entryLine (k, t)) = .ok x) :
    x = some (k, strip t) ∨ ∃ e, x = some e ∧ e.2.head? = some '#' := by
  obtain ⟨c, k', rfl⟩ := List.exists_cons_of_ne_nil hk.ne_nil
  have hspace : isSpace c = false := hk.stripped.head c (by simp)
  have hline : entryLine (c :: k', t) = c :: (k' ++ separator ++ t) := rfl
  have hnotskip : ¬(strip (entryLine (c :: k', t)) = [] ∨
      ((entryLine (c :: k', t)).dropWhile isSpace).head? = some '#') := by
    have hdrop : (entryLine (c :: k', t)).dropWhile isSpace = entryLine (c :: k', t) := by
      rw [hline, List.dropWhile_cons_of_neg (by simp [hspace])]
    rintro (hnil | hhash)
    · rw [strip, hdrop, List.rdropWhile_eq_nil_iff] at hnil
      have := hnil c (by rw [hline]; simp)
      simp [hspace] at this
    · rw [hdrop, hline] at hhash
      exact hk.noHash (by simpa using hhash)
  rw [lockLine, if_neg hnotskip] at h
  have hread {a b : Text} (hcut : cut separator (entryLine (c :: k', t)) = some (a, b)) :
      x = some (strip a, strip b) := by
    simp only [hcut] at h
    cases hkey : parseKey (strip a) with
    | none => simp [hkey] at h
    | some m =>
      simp only [hkey, Except.ok.injEq] at h
      exact h.symm
  rcases cut_entryLine hk.noSeparator t with hcut | ⟨a, hcut⟩
  · rw [hread hcut, hk.stripped.strip_eq]
    exact .inl rfl
  · refine .inr ⟨_, hread hcut, ?_⟩
    exact strip_head (by decide)

section Times

variable {isDecimal : Char → Bool}

theorem isSpace_eq_false_of_isDigit {c : Char} (h : c.isDigit = true) : isSpace c = false := by
  obtain ⟨d, hd, rfl⟩ := exists_digitChar h
  interval_cases d <;> decide

theorem zonePart_isSuffix {t z : Text} (h : zonePart isDecimal t = some z) : z <:+ t := by
  unfold zonePart at h
  split at h
  · split_ifs at h
    cases h
    exact (List.dropWhile_suffix _).trans (List.suffix_cons _ _)
  · cases h
    exact List.suffix_rfl

theorem zoneOffset_getLast {z : Text} {o : ℤ} (h : zoneOffset z = some o) :
    ∃ c, z.getLast? = some c ∧ isSpace c = false := by
  unfold zoneOffset at h
  split at h
  · exact ⟨'Z', rfl, by decide⟩
  · next sign h0 h1 m0 m1 =>
    simp only [Bool.and_eq_true, List.all_cons] at h
    split_ifs at h with hd
    all_goals exact ⟨m1, rfl, isSpace_eq_false_of_isDigit hd.1.2.2.2.1⟩
  · cases h

/-- A time that parses starts with a digit and ends in its zone. -/
theorem parseStamp_some {t : Text} {b : ℤ} (h : parseStamp isDecimal t = some b) :
    (∀ c ∈ t.head?, c.isDigit = true) ∧ (∀ c ∈ t.getLast?, isSpace c = false) ∧
      10 ≤ t.length := by
  unfold parseStamp at h
  split at h
  · next y0 y1 y2 y3 m0 m1 d0 d1 h0 h1 i0 i1 s0 s1 zone =>
    split_ifs at h with hd
    dsimp only at h
    split_ifs at h
    simp only [Option.map_eq_some_iff, Option.bind_eq_some_iff] at h
    obtain ⟨o, ⟨z, hz, ho⟩, -⟩ := h
    obtain ⟨c, hc, hspace⟩ := zoneOffset_getLast ho
    refine ⟨?_, ?_, by simp⟩
    · intro x hx
      rw [List.head?_cons, Option.mem_some] at hx
      rw [← hx]
      simp only [List.all_cons, Bool.and_eq_true] at hd
      exact hd.1
    · intro x hx
      have hsuffix : z <:+ y0 :: y1 :: y2 :: y3 :: '-' :: m0 :: m1 :: '-' :: d0 :: d1 :: 'T' ::
          h0 :: h1 :: ':' :: i0 :: i1 :: ':' :: s0 :: s1 :: zone :=
        (zonePart_isSuffix hz).trans (List.suffix_append [y0, y1, y2, y3, '-', m0, m1, '-', d0, d1,
          'T', h0, h1, ':', i0, i1, ':', s0, s1] zone)
      obtain ⟨p, hp⟩ := hsuffix
      rw [← hp, List.getLast?_append, hc, Option.some_or, Option.mem_some] at hx
      rwa [← hx]
  · cases h

theorem chomp_of_stripped {t : Text} (h : Stripped t) : chomp t = t := by
  rw [chomp, if_neg]
  intro hlast
  have := h.last '\n' (by simp [hlast])
  exact absurd this (by decide)

/-- Stripping removes what chomping does, if that leaves nothing more to strip. -/
theorem strip_eq_chomp {t : Text} (h : Stripped (chomp t)) : strip t = chomp t := by
  by_cases hlast : t.getLast? = some '\n'
  · obtain ⟨u, rfl⟩ : ∃ u, t = u ++ ['\n'] := by
      have hne : t ≠ [] := by
        rintro rfl
        cases hlast
      refine ⟨t.dropLast, ?_⟩
      rw [List.getLast?_eq_some_getLast hne] at hlast
      rw [← Option.some.inj hlast, List.dropLast_append_getLast]
    have hchomp : chomp (u ++ ['\n']) = u := by simp [chomp]
    rw [hchomp] at h ⊢
    rw [strip]
    by_cases hu : u = []
    · subst hu
      decide
    · have hfront : u.dropWhile isSpace = u := h.dropWhile_eq
      rw [dropWhile_append_of_ne_nil (by rwa [hfront]), hfront,
        List.rdropWhile_concat_pos _ _ _ (by decide), h.rdropWhile_eq]
  · have hchomp : chomp t = t := by rw [chomp, if_neg hlast]
    rw [hchomp] at h ⊢
    exact h.strip_eq

/-- A time that parses has at most a final newline to strip. -/
theorem parseTime_strip {t : Text} {b : ℤ} (h : parseTime isDecimal t = some b) :
    strip t = chomp t ∧ 10 ≤ (chomp t).length ∧ parseTime isDecimal (chomp t) = some b := by
  obtain ⟨hhead, hlast, hlen⟩ := parseStamp_some h
  have hst : Stripped (chomp t) :=
    ⟨fun c hc => isSpace_eq_false_of_isDigit (hhead c hc), hlast⟩
  exact ⟨strip_eq_chomp hst, hlen, by rw [parseTime, chomp_of_stripped hst]; exact h⟩

theorem chomp_isPrefix (t : Text) : chomp t <+: t := by
  unfold chomp
  split_ifs
  · exact List.dropLast_prefix t
  · exact List.prefix_rfl

/-- A text that starts with a hash sign is no time. -/
theorem parseTime_hash {t : Text} (h : t.head? = some '#') : parseTime isDecimal t = none := by
  cases hp : parseTime isDecimal t with
  | none => rfl
  | some b =>
    obtain ⟨hhead, -, hlen⟩ := parseStamp_some hp
    have hne : chomp t ≠ [] := by
      intro hnil
      rw [hnil] at hlen
      exact absurd hlen (by decide)
    obtain ⟨r, hr⟩ := chomp_isPrefix t
    rw [← hr, List.head?_append_of_ne_nil _ hne] at h
    exact absurd (hhead '#' h) (by decide)

end Times

theorem readLock_key {n : ℕ} {lines : List Text} {es : List LockEntry} {e : LockEntry}
    (h : readLockFrom n lines = .ok es) (he : e ∈ es) : IsKey e.1 := by
  induction lines generalizing n es with
  | nil =>
    cases h
    exact absurd he List.not_mem_nil
  | cons line lines ih =>
    simp only [readLockFrom, except_bind_ok] at h
    obtain ⟨x, hx, es', hes', hes⟩ := h
    cases hes
    rcases List.mem_append.mp he with hin | hin
    · rw [Option.mem_toList] at hin
      exact lockLine_some (hin ▸ hx)
    · exact ih hes' hin

theorem readLock_line {n : ℕ} {lines : List Text} {es : List LockEntry} {line : Text}
    (h : readLockFrom n lines = .ok es) (hline : line ∈ lines) :
    ∃ m x, lockLine m line = .ok x ∧ ∀ e, x = some e → e ∈ es := by
  induction lines generalizing n es with
  | nil => exact absurd hline List.not_mem_nil
  | cons l lines ih =>
    simp only [readLockFrom, except_bind_ok] at h
    obtain ⟨x, hx, es', hes', hes⟩ := h
    cases hes
    rcases List.mem_cons.mp hline with rfl | hin
    · exact ⟨n, x, hx, fun e he => by simp [he]⟩
    · obtain ⟨m, y, hy, hall⟩ := ih hes' hin
      exact ⟨m, y, hy, fun e he => List.mem_append_right _ (hall e he)⟩

theorem mapM_ok_mem {ε α β : Type} {f : α → Except ε β} {l : List α} {bs : List β} {a : α}
    (h : l.mapM f = .ok bs) (ha : a ∈ l) : ∃ b ∈ bs, f a = .ok b := by
  induction l generalizing bs with
  | nil => exact absurd ha List.not_mem_nil
  | cons x l ih =>
    simp only [List.mapM_cons, except_bind_ok] at h
    obtain ⟨b, hb, bs', hbs', hbs⟩ := h
    cases hbs
    rcases List.mem_cons.mp ha with rfl | hin
    · exact ⟨b, List.mem_cons_self, hb⟩
    · obtain ⟨b', hb', hf⟩ := ih hbs' hin
      exact ⟨b', List.mem_cons_of_mem _ hb', hf⟩

/-- An entry's time was re-read: it agrees with the proxy's within an hour, and the
proxy's time is known and old enough, or the version is exempted. -/
def Cleared (w : World) (exemptFile : List Text) (e : LockEntry) : Prop :=
  ∃ m tm a b, parseKey e.1 = some m ∧ w.proxy m.effectivePath m.effectiveVersion = some tm ∧
    parseTime w.isDecimal e.2 = some a ∧ parseTime w.isDecimal tm = some b ∧ |a - b| ≤ 3600 ∧
    (¬"0001-01-01".toList <+: tm ∧ cooldownDays ≤ (w.now - b) / 86400 ∨
      ∃ exempt, readExempt 1 exemptFile = .ok exempt ∧
        (m.effectivePath, m.effectiveVersion) ∈ exempt)

/-- The passes of a check that succeeds. -/
theorem cooldownVerify_ok {w : World} {base : Option (List Text)} {lock exemptFile : List Text}
    (h : cooldownVerify w base lock exemptFile = .ok ()) :
    ∃ es lines vs exempt, readLock lock = .ok es ∧
      (es.map (planLine (baseKeys base))).mapM (fetchLine w) = .ok lines ∧
      (∀ l ∈ lines, timeAgrees w l = true) ∧
      readLock (header ++ lines.map (fun l => entryLine (l.1.1, l.2.getD l.1.2))) = .ok vs ∧
      readExempt 1 exemptFile = .ok exempt ∧ ∀ v ∈ vs, clearsCooldown w exempt v = true := by
  simp only [cooldownVerify, except_bind_ok] at h
  obtain ⟨plan, hplan, verified, hverified, hcool⟩ := h
  cases hes : readLock lock with
  | error e => simp [verifyPlan, hes] at hplan
  | ok es =>
    simp only [verifyPlan, hes, Except.ok.injEq] at hplan
    subst hplan
    simp only [verifyTimes, except_bind_ok] at hverified
    obtain ⟨lines, hlines, hverified⟩ := hverified
    cases hvs : readLock verified with
    | error e => simp [cooldown, hvs] at hcool
    | ok vs =>
      simp only [cooldown, hvs, except_bind_ok] at hcool
      obtain ⟨exempt, hexempt, hcool⟩ := hcool
      split at hverified
      · next hbad =>
        cases hverified
        split at hcool
        · next hyoung =>
          refine ⟨es, lines, vs, exempt, rfl, hlines, ?_, hvs, hexempt, ?_⟩
          · simpa [List.filter_eq_nil_iff] using hbad
          · simpa [List.filter_eq_nil_iff] using hyoung
        · cases hcool
      · cases hverified

/-- The age check reads the entry's own key with the time written for it. -/
theorem clears_of_written {w : World} {exempt : List (Text × Text)} {texts : List Text}
    {vs : List LockEntry} {k t : Text} (hk : IsKey k) (hread : readLock texts = .ok vs)
    (hwritten : entryLine (k, t) ∈ texts) (hclear : ∀ v ∈ vs, clearsCooldown w exempt v = true) :
    clearsCooldown w exempt (k, strip t) = true := by
  obtain ⟨n, x, hx, hall⟩ := readLock_line hread hwritten
  rcases lockLine_entryLine hk hx with rfl | ⟨e, rfl, hhash⟩
  · exact hclear _ (hall _ rfl)
  · -- such an entry is refused
    exfalso
    have hc := hclear e (hall e rfl)
    unfold clearsCooldown at hc
    cases hm : parseKey e.1 with
    | none => simp [hm] at hc
    | some m =>
      simp only [hm, parseTime_hash hhash] at hc
      split_ifs at hc
      rw [decide_eq_true_eq] at hc
      rw [hc] at hhash
      exact absurd hhash (by decide)

/-- A line that is re-read is cleared. -/
theorem cleared_of_reread {w : World} {base : Option (List Text)} {lock exemptFile : List Text}
    {es : List LockEntry} {e : LockEntry} {m : ModuleLine}
    (h : cooldownVerify w base lock exemptFile = .ok ()) (hes : readLock lock = .ok es)
    (he : e ∈ es) (hm : parseKey e.1 = some m) (hlocal : m.isLocal = false)
    (hnew : e.1 ∉ baseKeys base) : Cleared w exemptFile e := by
  obtain ⟨es', lines, vs, exempt, hes', hlines, hagree, hread, hexempt, hclear⟩ :=
    cooldownVerify_ok h
  rw [hes] at hes'
  cases hes'
  have hplan : planLine (baseKeys base) e =
      ⟨e, some (m.effectivePath, m.effectiveVersion)⟩ := by
    simp [planLine, hm, hlocal, hnew]
  obtain ⟨l, hl, hfetch⟩ := mapM_ok_mem hlines (List.mem_map_of_mem he)
  rw [hplan, fetchLine] at hfetch
  split_ifs at hfetch
  dsimp only at hfetch
  cases htm : w.proxy m.effectivePath m.effectiveVersion with
  | none => simp [htm] at hfetch
  | some tm =>
    simp only [htm, Except.ok.injEq] at hfetch
    subst hfetch
    have hag := hagree _ hl
    simp only [timeAgrees] at hag
    cases ha : parseTime w.isDecimal e.2 with
    | none => simp [ha] at hag
    | some a =>
      cases hb : parseTime w.isDecimal tm with
      | none => simp [ha, hb] at hag
      | some b =>
        simp only [ha, hb, decide_eq_true_eq] at hag
        refine ⟨m, tm, a, b, hm, htm, ha, hb, hag, ?_⟩
        have hwritten : entryLine (e.1, tm) ∈
            header ++ lines.map (fun l => entryLine (l.1.1, l.2.getD l.1.2)) :=
          List.mem_append_right _ (List.mem_map.mpr ⟨_, hl, rfl⟩)
        have hc := clears_of_written (readLock_key hes he) hread hwritten hclear
        obtain ⟨hstrip, hlen, hparse⟩ := parseTime_strip hb
        rw [hstrip] at hc
        simp only [clearsCooldown, hm, hlocal, hparse, Bool.false_eq_true, if_false] at hc
        split_ifs at hc with hyoung
        · exact .inr ⟨exempt, hexempt, by simpa using hc⟩
        · rw [not_or, not_lt] at hyoung
          refine .inl ⟨fun hpre => hyoung.1 ?_, hyoung.2⟩
          exact List.prefix_of_prefix_length_le hpre (chomp_isPrefix tm) hlen

/-- The lines of the base lock; none without a base lock or with a malformed one. -/
def baseEntries (base : Option (List Text)) : List LockEntry :=
  match base with
  | none => []
  | some lines =>
    match readLock lines with
    | .ok es => es
    | .error _ => []

/-- An entry of a lock that is no filesystem replacement. -/
def IsRemote (lock : List Text) (e : LockEntry) : Prop :=
  (∃ es, readLock lock = .ok es ∧ e ∈ es) ∧ ∀ m, parseKey e.1 = some m → m.isLocal = false

/-- A line whose module key the base has records the time it has there. -/
def TimesKept (base : Option (List Text)) (lock : List Text) : Prop :=
  ∀ e, IsRemote lock e → e.1 ∈ baseKeys base → e ∈ baseEntries base

/-- A lock that keeps the times of the base: every remote line that the base does not
have was re-read. -/
theorem cleared_of_new {w : World} {base : Option (List Text)} {lock exemptFile : List Text}
    {e : LockEntry} (h : cooldownVerify w base lock exemptFile = .ok ())
    (hkept : TimesKept base lock) (he : IsRemote lock e) (hnew : e ∉ baseEntries base) :
    Cleared w exemptFile e := by
  obtain ⟨⟨es, hes, hmem⟩, hlocal⟩ := he
  obtain ⟨m, hm⟩ := (readLock_key hes hmem).parsed
  refine cleared_of_reread h hes hmem hm (hlocal m hm) (fun hkey => hnew ?_)
  exact hkept e ⟨⟨es, hes, hmem⟩, hlocal⟩ hkey

/-- The locks accepted one after the other, from no base on, each keeping the times of
the one before; the proxy answers the same throughout. -/
inductive History (isDecimal : Char → Bool) (proxy : Text → Text → Option Text) :
    Option (List Text) → Prop
  | start : History isDecimal proxy none
  | accept {now : ℚ} {base : Option (List Text)} {lock exemptFile : List Text} :
      History isDecimal proxy base →
      cooldownVerify ⟨isDecimal, now, proxy⟩ base lock exemptFile = .ok () →
      TimesKept base lock → History isDecimal proxy (some lock)

/-- The recorded time of an entry is within an hour of the proxy's. -/
def AgreesWithProxy (isDecimal : Char → Bool) (proxy : Text → Text → Option Text)
    (e : LockEntry) : Prop :=
  ∃ m tm a b, parseKey e.1 = some m ∧ proxy m.effectivePath m.effectiveVersion = some tm ∧
    parseTime isDecimal e.2 = some a ∧ parseTime isDecimal tm = some b ∧ |a - b| ≤ 3600

theorem History.agrees {isDecimal : Char → Bool} {proxy : Text → Text → Option Text}
    {base : Option (List Text)} (h : History isDecimal proxy base) {lock : List Text}
    (hbase : base = some lock) {e : LockEntry} (he : IsRemote lock e) :
    AgreesWithProxy isDecimal proxy e := by
  induction h generalizing lock e with
  | start => cases hbase
  | @accept now base lock' exemptFile hist hok hkept ih =>
    cases hbase
    by_cases hold : e ∈ baseEntries base
    · -- an unchanged line: it was in the lock before
      cases base with
      | none => exact absurd hold List.not_mem_nil
      | some lines =>
        simp only [baseEntries] at hold
        cases hes : readLock lines with
        | error err => simp [hes] at hold
        | ok es =>
          simp only [hes] at hold
          exact ih rfl ⟨⟨es, hes, hold⟩, he.2⟩
    · obtain ⟨m, tm, a, b, hm, htm, ha, hb, hle, -⟩ := cleared_of_new hok hkept he hold
      exact ⟨m, tm, a, b, hm, htm, ha, hb, hle⟩

/-- A forged lock time cannot clear the cooldown as long as no lock changes the time of a
line whose module key its base has: every remote line that is not a line of the base
agrees with the proxy within an hour and is old enough or exempted; and along a history
of such locks every recorded time agrees with the proxy. -/
theorem forged_time_refused (w : World) :
    (∀ (base : Option (List Text)) (lock exemptFile : List Text) (e : LockEntry),
      cooldownVerify w base lock exemptFile = .ok () → TimesKept base lock → IsRemote lock e →
      e ∉ baseEntries base → Cleared w exemptFile e) ∧
    ∀ (lock : List Text) (e : LockEntry), History w.isDecimal w.proxy (some lock) →
      IsRemote lock e → AgreesWithProxy w.isDecimal w.proxy e :=
  ⟨fun _ _ _ _ hok hkept he hnew => cleared_of_new hok hkept he hnew,
    fun _ _ hist he => hist.agrees rfl he⟩

/-- 16 November 2026, and a proxy that records 10 November 2026 for every version. -/
def youngWorld : World where
  isDecimal := Char.isDigit
  now := 1794787200
  proxy := fun _ _ => some "2026-11-10T00:00:00Z".toList

def honestLock : List Text := ["k3sm.io/dep v1.0.0 # 2026-11-10T00:00:00Z".toList]

/-- The same module line with an older time. -/
def forgedLock : List Text := ["k3sm.io/dep v1.0.0 # 2020-01-01T00:00:00Z".toList]

/-- The honest lock is refused by the cooldown. The forged one is accepted over it, and
its time is years from the proxy's. -/
theorem forgedLock_accepted :
    cooldownVerify youngWorld none honestLock [] =
        .error (.cooldown [("k3sm.io/dep v1.0.0".toList, "2026-11-10T00:00:00Z".toList)]) ∧
      cooldownVerify youngWorld (some honestLock) forgedLock [] = .ok () ∧
      readLock forgedLock =
        .ok [("k3sm.io/dep v1.0.0".toList, "2020-01-01T00:00:00Z".toList)] ∧
      parseTime Char.isDigit "2020-01-01T00:00:00Z".toList = some 1577836800 ∧
      parseTime Char.isDigit "2026-11-10T00:00:00Z".toList = some 1794268800 := by
  decide +kernel

/-- The same clock with a proxy that records 1 January 2020. -/
def oldWorld : World := { youngWorld with proxy := fun _ _ => some "2020-01-01T00:00:00Z".toList }

/-- A lock of 2020, and one with a second line. -/
def firstLock : List Text := ["k3sm.io/dep v1.0.0 # 2020-01-01T00:00:00Z".toList]

def grownLock : List Text :=
  ["k3sm.io/dep v1.0.0 # 2020-01-01T00:00:00Z".toList,
    "k3sm.io/new v0.3.0 # 2020-01-01T00:00:00Z".toList]

def firstEntry : LockEntry := ("k3sm.io/dep v1.0.0".toList, "2020-01-01T00:00:00Z".toList)

def newEntry : LockEntry := ("k3sm.io/new v0.3.0".toList, "2020-01-01T00:00:00Z".toList)

theorem readLock_grownLock : readLock grownLock = .ok [firstEntry, newEntry] := by decide

theorem isRemote_grownLock {e : LockEntry} (h : e ∈ [firstEntry, newEntry]) :
    IsRemote grownLock e := by
  refine ⟨⟨_, readLock_grownLock, h⟩, ?_⟩
  have hremote : [firstEntry, newEntry].all (fun e =>
      (parseKey e.1).all (fun m => m.isLocal = false)) = true := by decide
  intro m hm
  simpa [hm] using List.all_eq_true.mp hremote e h

theorem timesKept_grownLock : TimesKept (some firstLock) grownLock := by
  rintro e ⟨⟨es, hes, hmem⟩, -⟩ hkey
  have hkept : [firstEntry, newEntry].all (fun e => e.1 ∈ baseKeys (some firstLock) →
      e ∈ baseEntries (some firstLock)) = true := by decide
  obtain rfl := Except.ok.inj (readLock_grownLock.symm.trans hes)
  exact of_decide_eq_true (List.all_eq_true.mp hkept e hmem) hkey

/-- Over the first lock the second line is cleared, and the times of both agree with the proxy. -/
theorem forged_time_refused_grownLock :
    Cleared oldWorld [] newEntry ∧ ∀ e ∈ [firstEntry, newEntry],
      AgreesWithProxy oldWorld.isDecimal oldWorld.proxy e := by
  have hgrown : cooldownVerify oldWorld (some firstLock) grownLock [] = .ok () := by
    decide +kernel
  have hfirst : cooldownVerify oldWorld none firstLock [] = .ok () := by decide +kernel
  have hhistory : History oldWorld.isDecimal oldWorld.proxy (some grownLock) :=
    .accept (.accept .start hfirst (fun _ _ hkey => absurd hkey List.not_mem_nil)) hgrown
      timesKept_grownLock
  obtain ⟨hcleared, hagrees⟩ := forged_time_refused oldWorld
  exact ⟨hcleared (some firstLock) grownLock [] newEntry hgrown timesKept_grownLock
    (isRemote_grownLock (by simp)) (by decide),
    fun e he => hagrees grownLock e hhistory (isRemote_grownLock he)⟩

end K3smApis.Deps
