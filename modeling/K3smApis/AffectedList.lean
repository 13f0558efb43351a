import K3smApis.TextLines
import Mathlib.Data.List.TakeWhile

/-!
# The affected-package list of the gate

`read_packages` and `resolve_gate_mode` of `hack/lib/affected-mode.sh`. The reader runs
under `LC_ALL=C`, so its patterns, its order and its white space are those of bytes.
-/
namespace K3smApis.Affected
open Ascii

/-- `[[:space:]]`: the blank and the bytes from tab to carriage return. -/
def isSpace (c : UInt8) : Bool := c = space || (0x09 ≤ c && c ≤ 0x0d)

/-- `^[A-Za-z0-9][A-Za-z0-9…]*$` with the bytes `more` in the place of the dots. -/
def isWordOf (more : GoString) : GoString → Bool
  | [] => false
  | c :: cs => isAlnum c && cs.all (fun d => isAlnum d || d ∈ more)

/-- `^[A-Za-z0-9][A-Za-z0-9._-]*$` -/
def isRepo : GoString → Bool := isWordOf (lit "._-")

/-- The same with a tilde and a slash. -/
def isPackage : GoString → Bool := isWordOf (lit "._~-/")

/-- `[[ a < b ]]` in the C locale: the order of the bytes. -/
def isBefore : GoString → GoString → Bool
  | _, [] => false
  | [], _ :: _ => true
  | a :: s, b :: t => a < b || (a = b && isBefore s t)

/-- `${t%% *}` -/
def beforeSpace (t : GoString) : GoString := t.takeWhile (· ≠ space)

/-- `${t#* }` -/
def afterSpace (t : GoString) : GoString :=
  if space ∈ t then (t.dropWhile (· ≠ space)).tail else t

def header : GoString := lit "k3sm-affected/v1"
def endLine : GoString := lit "@end"
def fullKey : GoString := lit "@full "
def checkKey : GoString := lit "@check "

/-- The closed set of check names. -/
def checkNames : List GoString :=
  [lit "buf", lit "verify-deps", lit "govulncheck", lit "tidy", lit "gofmt", lit "boilerplate",
    lit "vet-tags", lit "script"]

/-- The variables of the loop in `read_packages`. -/
structure Scan where
  n : ℕ
  phase : ℕ
  prev : GoString
  seenEnd : Bool
  pkgs : List GoString
  full : GoString
  checks : List GoString
  deriving DecidableEq

def Scan.start : Scan := ⟨0, 0, [], false, [], [], []⟩

/-- A refusal of line `n`. -/
def Scan.refuse (s : Scan) (text : Msg) : Except Msg Scan :=
  .error ([.s "line ", .d s.n, .s ": "] ++ text)

/-- The branch of a line `@full rest`. -/
def readFull (repo : GoString) (s : Scan) (rest : GoString) : Except Msg Scan :=
  if ¬s.phase ≤ 1 then s.refuse [.s "@full after @check"]
  else
    let name := beforeSpace rest
    if name ≠ rest ∧ isRepo name ∧ (afterSpace rest).any (fun c => !isSpace c) then
      .ok { s with phase := 1, full := if name = repo then afterSpace rest else s.full }
    else s.refuse [.s "bad @full"]

/-- The branch of a line `@check rest`. The loop over `rest` cuts at every single space and
keeps empty fields; nothing tests the third. -/
def readCheck (repo : GoString) (s : Scan) (rest : GoString) : Except Msg Scan :=
  match rest.splitOn space with
  | w0 :: name :: more =>
    if more.length ≤ 1 ∧ isRepo w0 then
      if name ∈ checkNames then
        .ok { s with
          phase := 2
          -- what is left of the line without "@check $gate_repo "
          checks := if w0 = repo then s.checks ++ [rest.drop (repo.length + 1)] else s.checks }
      else s.refuse [.s "unknown @check ", .str name]
    else s.refuse [.s "bad @check"]
  | _ => s.refuse [.s "bad @check"]

/-- The branch of any other line. -/
def readPackage (s : Scan) (line : GoString) : Except Msg Scan :=
  if ¬isPackage line then s.refuse [.s "unrecognised line"]
  else if s.phase ≠ 0 then s.refuse [.s "package after a keyed line"]
  else if s.prev ≠ [] ∧ ¬isBefore s.prev line then
    s.refuse [.s "packages are not sorted and unique"]
  else .ok { s with prev := line, pkgs := s.pkgs ++ [line] }

/-- The `case` over a line below the header. -/
def readEntry (repo : GoString) (s : Scan) (line : GoString) : Except Msg Scan :=
  if line = endLine then .ok { s with seenEnd := true }
  else if fullKey.isPrefixOf line then readFull repo s (line.drop fullKey.length)
  else if checkKey.isPrefixOf line then readCheck repo s (line.drop checkKey.length)
  else readPackage s line

/-- One round of the loop. -/
def readLine (repo : GoString) (s : Scan) (line : GoString) : Except Msg Scan :=
  let s := { s with n := s.n + 1 }
  if s.seenEnd then s.refuse [.s "text after @end"]
  else if s.n = 1 then
    if line = header then .ok s else .error [.s "line 1 is not k3sm-affected/v1"]
  else readEntry repo s line

def readLines (repo : GoString) (s : Scan) (ls : List GoString) : Except Msg Scan :=
  ls.foldlM (readLine repo) s

/-- The lines `read` yields. What stands behind the last newline is none of them. -/
def lines (text : GoString) : List GoString := (text.splitOn newline).dropLast

/-- What `read_packages` leaves in `pf_pkgs`, `pf_full` and `pf_checks`. -/
structure Selection where
  pkgs : List GoString
  full : GoString
  checks : List GoString
  deriving DecidableEq

def Scan.selection (s : Scan) : Selection := ⟨s.pkgs, s.full, s.checks⟩

/-- What `iconv -f UTF-8 -t UTF-8` takes, by RFC 3629. An iconv that knows the older definition,
as that of glibc does, also takes four bytes for a number above U+10FFFF. -/
def isUtf8 (text : GoString) : Bool := (ByteArray.mk text.toArray).validateUTF8

/-- `read_packages` on a file with the bytes `text`; an error is `pf_reason`. -/
def readText (repo file text : GoString) : Except Msg Selection :=
  if text.getLast? ≠ some newline then
    .error [.str file, .s " is empty or does not end with a newline"]
  else if 0 ∈ text then .error [.str file, .s " holds a NUL byte"]
  else if ¬isUtf8 text then .error [.str file, .s " is not UTF-8"]
  else do
    let s ← readLines repo .start (lines text)
    if s.seenEnd then .ok s.selection else .error [.s "missing @end (truncated?)"]

/-- What a path names. -/
inductive ListFile where
  | absent
  | unreadable
  | text (bytes : GoString)

/-- `read_packages` -/
def readPackages (repo file : GoString) : ListFile → Except Msg Selection
  | .absent => .error [.str file, .s " does not exist"]
  | .unreadable => .error [.str file, .s " is not a readable file"]
  | .text bytes => readText repo file bytes

/-- The variables the caller sets. -/
structure Gate where
  repo : GoString
  goModule : GoString
  pkgFileSet : Bool
  pkgFile : GoString
  diffBase : GoString

/-- What git answers: the merge base or nothing, whether a revision is a commit, and the
changed and untracked files against it. -/
structure Git where
  mergeBase : GoString
  resolves : GoString → Bool
  changed : GoString → Option (List GoString)

inductive Mode where
  | full
  | packages
  deriving DecidableEq

structure Plan where
  mode : Mode
  reason : Msg
  vetSet : List GoString
  testSet : List GoString
  deriving DecidableEq

/-- The full gate. -/
def Plan.full (reason : Msg) : Plan := ⟨.full, reason, [lit "./..."], [lit "./..."]⟩

/-- `"$gate_module"|"$gate_module"/*` -/
def ownPackage (g : Gate) (p : GoString) : Bool :=
  p = g.goModule || (g.goModule ++ lit "/").isPrefixOf p

/-- `\.go$` -/
def isGoFile (f : GoString) : Bool := (lit ".go").isSuffixOf f

/-- The lines `grep -v` drops from the changed files: the doc files. -/
def isDocFile (f : GoString) : Bool :=
  f = [] || (lit ".md").isSuffixOf f || (lit "docs/").isPrefixOf f ||
    f ∈ [lit "LICENSE", lit "NOTICE", lit "DCO"]

/-- The branch of a list without a package of this module; an error is `exit 1`. -/
def resolveEmpty (g : Gate) (git : Git) : Except Msg Plan :=
  let base := if g.diffBase ≠ [] then g.diffBase else git.mergeBase
  let none : Msg := [.s "--packages: no ", .str g.goModule, .s " package listed and "]
  if base = [] ∨ ¬git.resolves base then
    .ok (.full (none ++ [.s "the diff base does not resolve; full gate"]))
  else match git.changed base with
    | Option.none => .ok (.full [.s "--packages: git diff against ", .str base,
        .s " failed; full gate"])
    | some changed =>
      if changed.any isGoFile then
        .error [.s "FAIL: [", .str g.repo, .s "] --packages lists no ", .str g.goModule,
          .s " package, but the diff against ", .str base, .s " holds Go changes:"]
      else match changed.filter (fun f => !isDocFile f) with
        | first :: _ => .ok (.full (none ++ [.s "the diff against ", .str base,
            .s " changes a non-doc file the gate cannot map (", .str first, .s "); full gate"]))
        | [] => .ok ⟨.packages, none ++ [.s "only doc files changed against ", .str base,
            .s "; vet and test skipped"], [], []⟩

/-- `resolve_gate_mode` before its dry run. -/
def resolveGateMode (g : Gate) (git : Git) (file : ListFile) : Except Msg Plan :=
  if g.pkgFileSet = false then .ok (.full [.s "no mode flag (the default)"])
  else match readPackages g.repo g.pkgFile file with
    | .error reason => .ok (.full ([.s "--packages: "] ++ reason ++ [.s "; full gate"]))
    | .ok sel =>
      if sel.full ≠ [] then
        .ok (.full [.s "--packages: @full ", .str g.repo, .s " ", .str sel.full])
      else
        let own := sel.pkgs.filter (ownPackage g)
        if own ≠ [] then
          .ok ⟨.packages, [.s "--packages: ", .d own.length, .s " ", .str g.goModule,
            .s " package(s) from ", .str g.pkgFile], own, own⟩
        else resolveEmpty g git

/-- A line `@full <repo> <reason>`. -/
structure FullLine where
  repo : GoString
  reason : GoString

def FullLine.line (f : FullLine) : GoString := fullKey ++ (f.repo ++ space :: f.reason)

/-- The reason is the rest of its line and holds a byte that is no white space. -/
structure FullLine.Fits (f : FullLine) : Prop where
  repo : isRepo f.repo = true
  oneLine : newline ∉ f.reason
  reason : ∃ c ∈ f.reason, isSpace c = false

/-- A line `@check <repo> <name> [<arg>]`. -/
structure CheckLine where
  repo : GoString
  name : GoString
  arg : Option GoString

/-- What follows the repository. -/
def CheckLine.body (c : CheckLine) : GoString := c.name ++ (c.arg.map (space :: ·)).getD []

def CheckLine.line (c : CheckLine) : GoString := checkKey ++ (c.repo ++ space :: c.body)

/-- A check line with an argument that satisfies `argument`, if it has one. -/
structure CheckLine.Fits (argument : GoString → Prop) (c : CheckLine) : Prop where
  repo : isRepo c.repo = true
  name : c.name ∈ checkNames
  arg : ∀ a ∈ c.arg, argument a

/-- The entries of a list. -/
structure Listing where
  pkgs : List GoString
  fulls : List FullLine
  checks : List CheckLine

def Listing.entries (l : Listing) : List GoString :=
  l.pkgs ++ (l.fulls.map FullLine.line ++ (l.checks.map CheckLine.line ++ [endLine]))

/-- The text of a list. -/
def Listing.text (l : Listing) : GoString := Lines.terminated newline (header :: l.entries)

structure Listing.Fits (argument : GoString → Prop) (l : Listing) : Prop where
  pkgs : ∀ p ∈ l.pkgs, isPackage p = true
  sorted : l.pkgs.Pairwise (fun p q => isBefore p q = true)
  fulls : ∀ f ∈ l.fulls, f.Fits
  checks : ∀ c ∈ l.checks, c.Fits argument

/-- A field: at least one byte and no white space. -/
def Field (a : GoString) : Prop := a ≠ [] ∧ ∀ b ∈ a, isSpace b = false

/-- All that the reader asks of an argument. -/
def Unbroken (a : GoString) : Prop := space ∉ a ∧ newline ∉ a

/-- A text without a NUL byte that is UTF-8. -/
structure Clean (text : GoString) : Prop where
  nulFree : 0 ∉ text
  utf8 : (ByteArray.mk text.toArray).IsValidUTF8

/-- The lists of format `k3sm-affected/v1`. -/
def Documented (text : GoString) : Prop :=
  Clean text ∧ ∃ l : Listing, l.Fits Field ∧ text = l.text

/-- What a list holds for one repository: its packages, the last reason and the checks. -/
def Listing.selection (repo : GoString) (l : Listing) : Selection where
  pkgs := l.pkgs
  full := ((l.fulls.filter (fun f => f.repo = repo)).map FullLine.reason).getLastD []
  checks := (l.checks.filter (fun c => c.repo = repo)).map CheckLine.body

theorem lines_text {ls : List GoString} (h : ∀ l ∈ ls, newline ∉ l) :
    lines (Lines.terminated newline ls) = ls := by
  rw [lines, Lines.splitOn_terminated h, List.dropLast_concat]

theorem newline_notMem_of_mem_lines {text l : GoString} (h : l ∈ lines text) : newline ∉ l :=
  Lines.notMem_of_mem_splitOn (List.mem_of_mem_dropLast h)

theorem isBefore_trans {a b c : GoString} (hab : isBefore a b = true) (hbc : isBefore b c = true) :
    isBefore a c = true := by
  induction a generalizing b c with
  | nil =>
    cases c with
    | nil => simp [isBefore] at hbc
    | cons z c => rfl
  | cons x a ih =>
    cases b with
    | nil => simp [isBefore] at hab
    | cons y b =>
      cases c with
      | nil => simp [isBefore] at hbc
      | cons z c =>
        simp only [isBefore, Bool.or_eq_true, Bool.and_eq_true, decide_eq_true_eq] at *
        rcases hab with hxy | ⟨rfl, hab⟩
        · rcases hbc with hyz | ⟨rfl, -⟩
          · exact .inl (UInt8.lt_trans hxy hyz)
          · exact .inl hxy
        · rcases hbc with hyz | ⟨rfl, hbc⟩
          · exact .inl hyz
          · exact .inr ⟨rfl, ih hab hbc⟩

/-- A word holds no byte that is neither a letter, a digit nor one of the others. -/
theorem notMem_of_isWordOf {more w : GoString} {b : UInt8} (h : isWordOf more w = true)
    (hb : isAlnum b = false) (hmore : b ∉ more) : b ∉ w := by
  cases w with
  | nil => simp
  | cons c cs =>
    simp only [isWordOf, Bool.and_eq_true, List.all_eq_true, Bool.or_eq_true,
      decide_eq_true_eq] at h
    intro hmem
    rcases List.mem_cons.mp hmem with rfl | hmem
    · simp [hb] at h
    · rcases h.2 b hmem with halnum | hin
      · simp [hb] at halnum
      · exact hmore hin

theorem isRepo_space {w : GoString} (h : isRepo w = true) : space ∉ w :=
  notMem_of_isWordOf h (by decide) (by decide)

theorem isRepo_newline {w : GoString} (h : isRepo w = true) : newline ∉ w :=
  notMem_of_isWordOf h (by decide) (by decide)

theorem isPackage_newline {w : GoString} (h : isPackage w = true) : newline ∉ w :=
  notMem_of_isWordOf h (by decide) (by decide)

theorem checkNames_unbroken {w : GoString} (h : w ∈ checkNames) : Unbroken w := by
  have hall : checkNames.all (fun w => decide (space ∉ w ∧ newline ∉ w)) = true := by decide
  have hw : space ∉ w ∧ newline ∉ w := of_decide_eq_true (List.all_eq_true.mp hall w h)
  exact hw

theorem ne_space_of_mem {w : GoString} (h : space ∉ w) : ∀ c ∈ w, decide (c ≠ space) = true :=
  fun _ hc => decide_eq_true (ne_of_mem_of_not_mem hc h)

theorem beforeSpace_append {w : GoString} (h : space ∉ w) (t : GoString) :
    beforeSpace (w ++ space :: t) = w := by
  rw [beforeSpace, List.takeWhile_append_of_pos (ne_space_of_mem h)]
  simp

theorem afterSpace_append {w : GoString} (h : space ∉ w) (t : GoString) :
    afterSpace (w ++ space :: t) = t := by
  rw [afterSpace, if_pos (by simp), List.dropWhile_append_of_pos (ne_space_of_mem h)]
  simp

/-- A text with a space is what stands before the first, the space, and the rest. -/
theorem eq_append_of_beforeSpace_ne {t : GoString} (h : beforeSpace t ≠ t) :
    t = beforeSpace t ++ space :: afterSpace t := by
  have hmem : space ∈ t := by
    by_contra hnot
    apply h
    exact List.takeWhile_eq_self_iff.mpr (ne_space_of_mem hnot)
  obtain ⟨w, r, rfl, hw⟩ := List.eq_append_cons_of_mem hmem
  rw [beforeSpace_append hw, afterSpace_append hw]

def Scan.withFull (repo : GoString) (s : Scan) (f : FullLine) : Scan :=
  { s with phase := 1, full := if f.repo = repo then f.reason else s.full }

def Scan.withCheck (repo : GoString) (s : Scan) (c : CheckLine) : Scan :=
  { s with phase := 2, checks := if c.repo = repo then s.checks ++ [c.body] else s.checks }

def Scan.withPackage (s : Scan) (p : GoString) : Scan :=
  { s with prev := p, pkgs := s.pkgs ++ [p] }

/-- All that a line below the header can do. -/
inductive Entry (repo : GoString) (s : Scan) : GoString → Scan → Prop
  | done : Entry repo s endLine { s with seenEnd := true }
  | full (f : FullLine) (hf : f.Fits) (hphase : s.phase ≤ 1) :
      Entry repo s f.line (s.withFull repo f)
  | check (c : CheckLine) (hc : c.Fits Unbroken) : Entry repo s c.line (s.withCheck repo c)
  | package (p : GoString) (hp : isPackage p = true) (hphase : s.phase = 0)
      (horder : s.prev = [] ∨ isBefore s.prev p = true) : Entry repo s p (s.withPackage p)

theorem readFull_line {f : FullLine} (hf : f.Fits) {s : Scan} (hphase : s.phase ≤ 1)
    (repo : GoString) :
    readFull repo s (f.repo ++ space :: f.reason) = .ok (s.withFull repo f) := by
  have hspace := isRepo_space hf.repo
  have hne : f.repo ≠ f.repo ++ space :: f.reason := by simp
  have hany : f.reason.any (fun c => !isSpace c) = true := by
    simpa using hf.reason
  simp only [readFull, beforeSpace_append hspace, afterSpace_append hspace, hphase,
    not_true_eq_false,
    if_false, hf.repo, hany, hne, ne_eq, not_false_eq_true, and_self, if_true]
  rfl

theorem readFull_ok {repo rest : GoString} {s s' : Scan} (hline : newline ∉ rest)
    (h : readFull repo s rest = .ok s') :
    ∃ f : FullLine, f.Fits ∧ s.phase ≤ 1 ∧ rest = f.repo ++ space :: f.reason := by
  simp only [readFull, Scan.refuse] at h
  by_cases hphase : s.phase ≤ 1
  · rw [if_neg (not_not_intro hphase)] at h
    by_cases hfits : beforeSpace rest ≠ rest ∧ isRepo (beforeSpace rest) = true ∧
        (afterSpace rest).any (fun c => !isSpace c) = true
    · obtain ⟨hne, hrepo, hany⟩ := hfits
      have hrest := eq_append_of_beforeSpace_ne hne
      have hreason : newline ∉ afterSpace rest := by
        rw [hrest] at hline
        simp only [List.mem_append, List.mem_cons, not_or] at hline
        exact hline.2.2
      exact ⟨⟨beforeSpace rest, afterSpace rest⟩, ⟨hrepo, hreason, by simpa using hany⟩, hphase,
        hrest⟩
    · rw [if_neg hfits] at h
      cases h
  · rw [if_pos hphase] at h
    cases h

theorem splitOn_body {c : CheckLine} (hc : c.Fits Unbroken) :
    (c.repo ++ space :: c.body).splitOn space = c.repo :: c.name :: c.arg.toList := by
  have hname := (checkNames_unbroken hc.name).1
  rw [List.splitOn_append_cons_self_of_not_mem (isRepo_space hc.repo)]
  cases harg : c.arg with
  | none => simp [CheckLine.body, harg, List.splitOn_eq_singleton hname]
  | some a =>
    have ha := (hc.arg a (by simp [harg])).1
    simp [CheckLine.body, harg, List.splitOn_append_cons_self_of_not_mem hname,
      List.splitOn_eq_singleton ha]

theorem readCheck_line {c : CheckLine} (hc : c.Fits Unbroken) (s : Scan) (repo : GoString) :
    readCheck repo s (c.repo ++ space :: c.body) = .ok (s.withCheck repo c) := by
  have hlen : c.arg.toList.length ≤ 1 := by cases c.arg <;> simp
  simp only [readCheck, splitOn_body hc, hlen, hc.repo, hc.name, and_self, if_true]
  by_cases hrepo : c.repo = repo
  · simp [Scan.withCheck, ← hrepo]
  · simp [Scan.withCheck, hrepo]

theorem readCheck_ok {repo rest : GoString} {s s' : Scan} (hline : newline ∉ rest)
    (h : readCheck repo s rest = .ok s') :
    ∃ c : CheckLine, c.Fits Unbroken ∧ rest = c.repo ++ space :: c.body := by
  have hjoin : [space].intercalate (rest.splitOn space) = rest := List.intercalate_splitOn space
  have hfields : ∀ w ∈ rest.splitOn space, space ∉ w := fun w hw => Lines.notMem_of_mem_splitOn hw
  rw [readCheck] at h
  split at h
  case h_2 => cases h
  case h_1 w0 name more hsplit =>
    rw [hsplit] at hjoin hfields
    obtain ⟨hlen, hrepo⟩ : more.length ≤ 1 ∧ isRepo w0 = true := by
      by_contra hbad
      rw [if_neg hbad] at h
      cases h
    have hname : name ∈ checkNames := by
      by_contra hbad
      rw [if_pos ⟨hlen, hrepo⟩, if_neg hbad] at h
      cases h
    cases more with
    | nil =>
      refine ⟨⟨w0, name, none⟩, ⟨hrepo, hname, by simp⟩, ?_⟩
      simpa [List.intercalate, CheckLine.body] using hjoin.symm
    | cons a more =>
      have hmore : more = [] := by simpa using hlen
      subst hmore
      have hrest : rest = w0 ++ space :: (name ++ space :: a) := by
        simpa [List.intercalate] using hjoin.symm
      have hnl : newline ∉ a := by
        rw [hrest] at hline
        simp only [List.mem_append, List.mem_cons, not_or] at hline
        exact hline.2.2.2.2
      refine ⟨⟨w0, name, some a⟩, ⟨hrepo, hname, ?_⟩, by simpa [CheckLine.body] using hrest⟩
      intro b hb
      obtain rfl : a = b := by simpa using hb
      exact ⟨hfields a (by simp), hnl⟩

theorem isPrefixOf_key (key t : GoString) : key.isPrefixOf (key ++ t) = true :=
  List.isPrefixOf_iff_prefix.mpr (List.prefix_append key t)

/-- A package line starts with no at sign. -/
theorem isPackage_head {p : GoString} (hp : isPackage p = true) : p.head? ≠ some 0x40 := by
  cases p with
  | nil => simp
  | cons c cs =>
    simp only [isPackage, isWordOf, Bool.and_eq_true] at hp
    rintro ⟨rfl⟩
    exact absurd hp.1 (by decide)

-- The second byte tells the keyed lines apart.
theorem endLine_eq : endLine = 0x40 :: 0x65 :: lit "nd" := by decide

theorem fullKey_eq : fullKey = 0x40 :: 0x66 :: lit "ull " := by decide

theorem checkKey_eq : checkKey = 0x40 :: 0x63 :: lit "heck " := by decide

theorem readEntry_full (f : FullLine) (s : Scan) (repo : GoString) :
    readEntry repo s f.line = readFull repo s (f.repo ++ space :: f.reason) := by
  have hend : f.line ≠ endLine := by simp [FullLine.line, fullKey_eq, endLine_eq]
  rw [readEntry, if_neg hend, FullLine.line, if_pos (isPrefixOf_key _ _), List.drop_left]

theorem readEntry_check (c : CheckLine) (s : Scan) (repo : GoString) :
    readEntry repo s c.line = readCheck repo s (c.repo ++ space :: c.body) := by
  have hend : c.line ≠ endLine := by simp [CheckLine.line, checkKey_eq, endLine_eq]
  have hfull : ¬fullKey.isPrefixOf c.line = true := by
    simp [CheckLine.line, checkKey_eq, fullKey_eq]
  rw [readEntry, if_neg hend, if_neg hfull, CheckLine.line, if_pos (isPrefixOf_key _ _),
    List.drop_left]

theorem readEntry_package {p : GoString} (hp : isPackage p = true) (s : Scan) (repo : GoString) :
    readEntry repo s p = readPackage s p := by
  have hhead := isPackage_head hp
  have hend : p ≠ endLine := by
    rintro rfl
    simp [endLine_eq] at hhead
  have hkey : ∀ key t, key = 0x40 :: t → ¬key.isPrefixOf p = true := by
    rintro key t rfl hstart
    obtain ⟨u, rfl⟩ := List.isPrefixOf_iff_prefix.mp hstart
    simp at hhead
  rw [readEntry, if_neg hend, if_neg (hkey _ _ fullKey_eq), if_neg (hkey _ _ checkKey_eq)]

theorem readEntry_ok {repo line : GoString} {s s' : Scan} (hline : newline ∉ line) :
    readEntry repo s line = .ok s' ↔ Entry repo s line s' := by
  constructor
  · intro h
    by_cases hend : line = endLine
    · rw [readEntry, if_pos hend] at h
      obtain rfl := Except.ok.inj h
      exact hend ▸ .done
    by_cases hfull : fullKey.isPrefixOf line = true
    · obtain ⟨rest, rfl⟩ := List.isPrefixOf_iff_prefix.mp hfull
      rw [readEntry, if_neg hend, if_pos hfull, List.drop_left] at h
      have hrest : newline ∉ rest := fun hmem => hline (List.mem_append_right _ hmem)
      obtain ⟨f, hf, hphase, rfl⟩ := readFull_ok hrest h
      rw [readFull_line hf hphase] at h
      obtain rfl := Except.ok.inj h
      exact .full f hf hphase
    by_cases hcheck : checkKey.isPrefixOf line = true
    · obtain ⟨rest, rfl⟩ := List.isPrefixOf_iff_prefix.mp hcheck
      rw [readEntry, if_neg hend, if_neg hfull, if_pos hcheck, List.drop_left] at h
      have hrest : newline ∉ rest := fun hmem => hline (List.mem_append_right _ hmem)
      obtain ⟨c, hc, rfl⟩ := readCheck_ok hrest h
      rw [readCheck_line hc] at h
      obtain rfl := Except.ok.inj h
      exact .check c hc
    · rw [readEntry, if_neg hend, if_neg hfull, if_neg hcheck, readPackage] at h
      simp only [Scan.refuse] at h
      split_ifs at h with hp hphase horder
      obtain rfl := Except.ok.inj h
      refine .package line (by simpa using hp) (by simpa using hphase) ?_
      rw [not_and_or, not_not, not_not] at horder
      exact horder
  · intro h
    cases h with
    | done => rw [readEntry, if_pos rfl]
    | full f hf hphase => rw [readEntry_full, readFull_line hf hphase]
    | check c hc => rw [readEntry_check, readCheck_line hc]
    | package p hp hphase horder =>
      have hsorted : ¬(s.prev ≠ [] ∧ ¬isBefore s.prev line = true) := by
        rw [not_and_or, not_not, not_not]
        exact horder
      rw [readEntry_package hp, readPackage, if_neg (not_not_intro hp),
        if_neg (not_not_intro hphase), if_neg hsorted]
      rfl

theorem readLine_below {s : Scan} (hn : 0 < s.n) (hend : s.seenEnd = false)
    (repo line : GoString) :
    readLine repo s line = readEntry repo { s with n := s.n + 1 } line := by
  have hfirst : s.n ≠ 0 := hn.ne'
  simp [readLine, hend, hfirst]

theorem readLines_cons (repo : GoString) (s : Scan) (line : GoString) (ls : List GoString) :
    readLines repo s (line :: ls) = readLine repo s line >>= fun s' => readLines repo s' ls :=
  List.foldlM_cons

/-- A round below the header, and the rounds behind it. -/
theorem readLines_entry {repo line : GoString} {s s' : Scan} (hn : 0 < s.n)
    (hend : s.seenEnd = false) (hline : newline ∉ line)
    (h : Entry repo { s with n := s.n + 1 } line s') (ls : List GoString) :
    readLines repo s (line :: ls) = readLines repo s' ls := by
  rw [readLines_cons, readLine_below hn hend, (readEntry_ok hline).mpr h]
  rfl

/-- An accepting run below the header has read the entries of a list. -/
theorem entries_of_readLines {repo : GoString} {s s' : Scan} {ls : List GoString}
    (h : readLines repo s ls = .ok s') (hs' : s'.seenEnd = true) (hn : 0 < s.n)
    (hend : s.seenEnd = false) (hls : ∀ l ∈ ls, newline ∉ l) :
    ∃ l : Listing, l.Fits Unbroken ∧ ls = l.entries ∧ (s.phase ≠ 0 → l.pkgs = []) ∧
      (1 < s.phase → l.fulls = []) ∧ ∀ p ∈ l.pkgs, s.prev = [] ∨ isBefore s.prev p = true := by
  induction ls generalizing s with
  | nil =>
    obtain rfl : s = s' := Except.ok.inj h
    rw [hend] at hs'
    cases hs'
  | cons line ls ih =>
    rw [readLines_cons, except_bind_ok] at h
    obtain ⟨mid, hline, hrest⟩ := h
    rw [readLine_below hn hend, readEntry_ok (hls line (by simp))] at hline
    have hbelow : ∀ m ∈ ls, newline ∉ m := fun m hm => hls m (by simp [hm])
    cases hline with
    | done =>
      -- a line behind @end is refused
      have hnil : ls = [] := by
        cases ls with
        | nil => rfl
        | cons m ls =>
          rw [readLines_cons] at hrest
          cases hrest
      subst hnil
      exact ⟨⟨[], [], []⟩, ⟨by simp, by simp, by simp, by simp⟩, rfl, by simp, by simp, by simp⟩
    | full f hf hphase =>
      obtain ⟨l, hl, rfl, hpkgs, -, -⟩ := ih hrest (Nat.succ_pos s.n) hend hbelow
      have hnil : l.pkgs = [] := hpkgs (by simp [Scan.withFull])
      refine ⟨{ l with fulls := f :: l.fulls }, ⟨by simp [hnil], by simp [hnil], ?_, hl.checks⟩,
        by simp [Listing.entries, hnil], by simp [hnil], ?_, by simp [hnil]⟩
      · simpa using ⟨hf, hl.fulls⟩
      · intro hlate
        simp only at hphase
        omega
    | check c hc =>
      obtain ⟨l, hl, rfl, hpkgs, hfulls, -⟩ := ih hrest (Nat.succ_pos s.n) hend hbelow
      have hnil : l.pkgs = [] := hpkgs (by simp [Scan.withCheck])
      have hnone : l.fulls = [] := hfulls (by simp [Scan.withCheck])
      refine ⟨{ l with checks := c :: l.checks },
        ⟨by simp [hnil], by simp [hnil], by simp [hnone], ?_⟩,
        by simp [Listing.entries, hnil, hnone], by simp [hnil], by simp [hnone], by simp [hnil]⟩
      simpa using ⟨hc, hl.checks⟩
    | package p hp hphase horder =>
      obtain ⟨l, hl, rfl, -, -, hafter⟩ := ih hrest (Nat.succ_pos s.n) hend hbelow
      have hne : line ≠ [] := by
        rintro rfl
        simp [isPackage, isWordOf] at hp
      have hbefore : ∀ q ∈ l.pkgs, isBefore line q = true := by
        intro q hq
        simpa [Scan.withPackage, hne] using hafter q hq
      refine ⟨{ l with pkgs := line :: l.pkgs }, ⟨?_, ?_, hl.fulls, hl.checks⟩,
        by simp [Listing.entries], ?_, ?_, ?_⟩
      · simpa using ⟨hp, hl.pkgs⟩
      · exact List.pairwise_cons.mpr ⟨hbefore, hl.sorted⟩
      · exact fun hlate => absurd hphase hlate
      · intro hlate
        simp only at hphase
        omega
      · intro q hq
        rcases List.mem_cons.mp hq with rfl | hq
        · exact horder
        · exact horder.imp_right (fun hprev => isBefore_trans hprev (hbefore q hq))

theorem FullLine.Fits.newline_notMem {f : FullLine} (hf : f.Fits) : newline ∉ f.line := by
  have hkey : newline ∉ fullKey := by decide
  have hspace : newline ≠ space := by decide
  simp [FullLine.line, hkey, hspace, isRepo_newline hf.repo, hf.oneLine]

theorem CheckLine.Fits.newline_notMem {c : CheckLine} (hc : c.Fits Unbroken) :
    newline ∉ c.line := by
  have hkey : newline ∉ checkKey := by decide
  have hspace : newline ≠ space := by decide
  have hname := (checkNames_unbroken hc.name).2
  cases harg : c.arg with
  | none => simp [CheckLine.line, CheckLine.body, harg, hkey, hspace, isRepo_newline hc.repo, hname]
  | some a =>
    have ha := (hc.arg a (by simp [harg])).2
    simp [CheckLine.line, CheckLine.body, harg, hkey, hspace, isRepo_newline hc.repo, hname, ha]

theorem readLines_checks {cs : List CheckLine} (hcs : ∀ c ∈ cs, c.Fits Unbroken) {s : Scan}
    (hn : 0 < s.n) (hend : s.seenEnd = false) (repo : GoString) :
    ∃ s', readLines repo s (cs.map CheckLine.line ++ [endLine]) = .ok s' ∧ s'.seenEnd = true ∧
      s'.selection = ⟨s.pkgs, s.full,
        s.checks ++ (cs.filter (fun c => c.repo = repo)).map CheckLine.body⟩ := by
  induction cs generalizing s with
  | nil =>
    refine ⟨{ s with n := s.n + 1, seenEnd := true }, ?_, rfl, by simp [Scan.selection]⟩
    exact readLines_entry hn hend (by decide) .done []
  | cons c cs ih =>
    have hc := hcs c (by simp)
    let mid := Scan.withCheck repo { s with n := s.n + 1 } c
    obtain ⟨s', hrun, hseen, hsel⟩ :=
      ih (s := mid) (fun d hd => hcs d (by simp [hd])) (Nat.succ_pos s.n) hend
    refine ⟨s', ?_, hseen, ?_⟩
    · rw [← hrun]
      exact readLines_entry hn hend hc.newline_notMem (.check c hc) _
    · rw [hsel]
      by_cases hrepo : c.repo = repo <;> simp [mid, Scan.withCheck, hrepo]

theorem readLines_fulls {fs : List FullLine} (hfs : ∀ f ∈ fs, f.Fits) {cs : List CheckLine}
    (hcs : ∀ c ∈ cs, c.Fits Unbroken) {s : Scan} (hn : 0 < s.n) (hend : s.seenEnd = false)
    (hphase : s.phase ≤ 1) (repo : GoString) :
    ∃ s', readLines repo s (fs.map FullLine.line ++ (cs.map CheckLine.line ++ [endLine])) = .ok s' ∧
      s'.seenEnd = true ∧ s'.selection = ⟨s.pkgs,
        ((fs.filter (fun f => f.repo = repo)).map FullLine.reason).getLastD s.full,
        s.checks ++ (cs.filter (fun c => c.repo = repo)).map CheckLine.body⟩ := by
  induction fs generalizing s with
  | nil => exact readLines_checks hcs hn hend repo
  | cons f fs ih =>
    have hf := hfs f (by simp)
    let mid := Scan.withFull repo { s with n := s.n + 1 } f
    obtain ⟨s', hrun, hseen, hsel⟩ := ih (s := mid) (fun d hd => hfs d (by simp [hd]))
      (Nat.succ_pos s.n) hend (le_refl 1)
    refine ⟨s', ?_, hseen, ?_⟩
    · rw [← hrun]
      exact readLines_entry hn hend hf.newline_notMem (.full f hf hphase) _
    · rw [hsel]
      by_cases hrepo : f.repo = repo
      · simp only [mid, Scan.withFull, List.filter_cons, hrepo, decide_true, if_true, List.map_cons,
          List.getLastD_cons]
      · simp only [mid, Scan.withFull, List.filter_cons, hrepo, decide_false, Bool.false_eq_true,
          if_false]

theorem readLines_entries {l : Listing} (hl : l.Fits Unbroken) {s : Scan} (hn : 0 < s.n)
    (hend : s.seenEnd = false) (hphase : s.phase = 0)
    (hprev : ∀ p ∈ l.pkgs, s.prev = [] ∨ isBefore s.prev p = true) (repo : GoString) :
    ∃ s', readLines repo s l.entries = .ok s' ∧ s'.seenEnd = true ∧
      s'.selection = ⟨s.pkgs ++ l.pkgs,
        ((l.fulls.filter (fun f => f.repo = repo)).map FullLine.reason).getLastD s.full,
        s.checks ++ (l.checks.filter (fun c => c.repo = repo)).map CheckLine.body⟩ := by
  obtain ⟨ps, fs, cs⟩ := l
  obtain ⟨hps, hsorted, hfs, hcs⟩ := hl
  induction ps generalizing s with
  | nil =>
    rw [List.append_nil]
    exact readLines_fulls hfs hcs hn hend (by omega) repo
  | cons p ps ih =>
    have hp := hps p (by simp)
    obtain ⟨hbefore, hsorted⟩ := List.pairwise_cons.mp hsorted
    let mid := Scan.withPackage { s with n := s.n + 1 } p
    obtain ⟨s', hrun, hseen, hsel⟩ :=
      ih (s := mid) (Nat.succ_pos s.n) hend hphase (fun q hq => .inr (hbefore q hq))
      (fun q hq => hps q (by simp [hq])) hsorted hfs hcs
    refine ⟨s', ?_, hseen, ?_⟩
    · rw [← hrun]
      exact readLines_entry hn hend (isPackage_newline hp)
        (.package p hp hphase (hprev p (by simp))) _
    · rw [hsel]
      simp [mid, Scan.withPackage]

theorem Listing.Fits.newline_notMem {l : Listing} (hl : l.Fits Unbroken) :
    ∀ line ∈ header :: l.entries, newline ∉ line := by
  have hheader : newline ∉ header := by decide
  have hend : newline ∉ endLine := by decide
  intro line hline
  simp only [Listing.entries, List.mem_cons, List.mem_append, List.mem_map, List.not_mem_nil,
    or_false] at hline
  rcases hline with rfl | hp | ⟨f, hf, rfl⟩ | ⟨c, hc, rfl⟩ | rfl
  · exact hheader
  · exact isPackage_newline (hl.pkgs line hp)
  · exact (hl.fulls f hf).newline_notMem
  · exact (hl.checks c hc).newline_notMem
  · exact hend

theorem isUtf8_iff {text : GoString} :
    isUtf8 text = true ↔ (ByteArray.mk text.toArray).IsValidUTF8 :=
  ByteArray.validateUTF8_eq_true_iff

/-- Every list the reader has no objection to is read, with all it holds for the
repository. -/
theorem readText_text {l : Listing} (hl : l.Fits Unbroken) (hclean : Clean l.text)
    (repo file : GoString) : readText repo file l.text = .ok (l.selection repo) := by
  have hlast : l.text.getLast? = some newline := by
    have hentries : header :: l.entries = header :: (l.pkgs ++ (l.fulls.map FullLine.line ++
        l.checks.map CheckLine.line)) ++ [endLine] := by simp [Listing.entries]
    simp [Listing.text, hentries, Lines.terminated, ← List.append_assoc]
  have hlines : lines l.text = header :: l.entries := lines_text hl.newline_notMem
  have hfirst : readLine repo .start header = .ok { Scan.start with n := 1 } := by
    simp [readLine, Scan.start]
  obtain ⟨s', hrun, hseen, hsel⟩ := readLines_entries hl (s := { Scan.start with n := 1 })
    (by decide) rfl rfl (fun _ _ => .inl rfl) repo
  have hread : readLines repo .start (lines l.text) = .ok s' := by
    rw [hlines, readLines_cons, hfirst]
    exact hrun
  rw [readText, if_neg (not_not_intro hlast), if_neg hclean.nulFree,
    if_neg (not_not_intro (isUtf8_iff.mpr hclean.utf8)), hread]
  show (if s'.seenEnd = true then Except.ok s'.selection else _) = _
  rw [if_pos hseen, hsel]
  rfl

/-- What is read is a list, up to the arguments of its checks. -/
theorem readText_ok {repo file text : GoString} {sel : Selection}
    (h : readText repo file text = .ok sel) :
    Clean text ∧ ∃ l : Listing, l.Fits Unbroken ∧ text = l.text := by
  rw [readText] at h
  by_cases hlast : text.getLast? = some newline
  swap
  · rw [if_pos hlast] at h
    cases h
  by_cases hnul : (0 : UInt8) ∈ text
  · rw [if_neg (not_not_intro hlast), if_pos hnul] at h
    cases h
  by_cases hutf8 : isUtf8 text = true
  swap
  · rw [if_neg (not_not_intro hlast), if_neg hnul, if_pos hutf8] at h
    cases h
  rw [if_neg (not_not_intro hlast), if_neg hnul, if_neg (not_not_intro hutf8), except_bind_ok] at h
  obtain ⟨s', hrun, hsel⟩ := h
  have hseen : s'.seenEnd = true := by
    by_contra hnot
    rw [if_neg hnot] at hsel
    cases hsel
  refine ⟨⟨hnul, isUtf8_iff.mp hutf8⟩, ?_⟩
  have htext : Lines.terminated newline (lines text) = text :=
    Lines.terminated_dropLast_splitOn hlast
  cases hlines : lines text with
  | nil =>
    rw [hlines] at hrun
    obtain rfl : Scan.start = s' := Except.ok.inj hrun
    cases hseen
  | cons line ls =>
    have hnl : ∀ m ∈ line :: ls, newline ∉ m := by
      intro m hm
      exact newline_notMem_of_mem_lines (hlines ▸ hm)
    rw [hlines, readLines_cons, except_bind_ok] at hrun
    obtain ⟨mid, hfirst, hrest⟩ := hrun
    have hheader : line = header := by
      by_contra hnot
      simp [readLine, Scan.start, hnot] at hfirst
    subst hheader
    obtain rfl : { Scan.start with n := 1 } = mid := by
      simpa [readLine, Scan.start] using hfirst
    obtain ⟨l, hl, rfl, -⟩ := entries_of_readLines hrest hseen (by decide) rfl
      (fun m hm => hnl m (by simp [hm]))
    exact ⟨l, hl, by rw [← htext, hlines, Listing.text]⟩

theorem CheckLine.line_inj {c d : CheckLine} (hc : c.Fits Unbroken) (hd : d.Fits Unbroken)
    (h : c.line = d.line) : c = d := by
  have hbody : c.repo ++ space :: c.body = d.repo ++ space :: d.body := List.append_cancel_left h
  have hfields := splitOn_body hc
  rw [hbody, splitOn_body hd] at hfields
  obtain ⟨hrepo, hname, harg⟩ :
      d.repo = c.repo ∧ d.name = c.name ∧ d.arg.toList = c.arg.toList := by
    simpa using hfields
  have harg : d.arg = c.arg := by simpa using congrArg List.head? harg
  cases c
  cases d
  simp_all

/-- A text holds the checks of one list only. -/
theorem Listing.mem_checks_of_text_eq {l m : Listing} (hl : l.Fits Unbroken)
    (hm : m.Fits Unbroken) (h : l.text = m.text) {c : CheckLine} (hc : c ∈ l.checks) :
    c ∈ m.checks := by
  have hlines : header :: l.entries = header :: m.entries := by
    rw [← lines_text hl.newline_notMem, ← lines_text hm.newline_notMem]
    exact congrArg lines h
  have hmem : c.line ∈ m.entries := by
    rw [← (List.cons.inj hlines).2]
    simp only [Listing.entries, List.mem_append, List.mem_map]
    exact .inr (.inr (.inl ⟨c, hc, rfl⟩))
  simp only [Listing.entries, List.mem_append, List.mem_map, List.mem_singleton] at hmem
  rcases hmem with hp | ⟨f, -, hf⟩ | ⟨d, hd, hline⟩ | hend
  · have hhead := isPackage_head (hm.pkgs _ hp)
    simp [CheckLine.line, checkKey_eq] at hhead
  · simp [FullLine.line, CheckLine.line, fullKey_eq, checkKey_eq] at hf
  · obtain rfl := CheckLine.line_inj (hm.checks d hd) (hl.checks c hc) hline
    exact hd
  · simp [CheckLine.line, checkKey_eq, endLine_eq] at hend

theorem Field.unbroken {a : GoString} (h : Field a) : Unbroken a :=
  ⟨fun hmem => absurd (h.2 _ hmem) (by decide), fun hmem => absurd (h.2 _ hmem) (by decide)⟩

theorem Listing.Fits.mono {p q : GoString → Prop} {l : Listing} (h : l.Fits p)
    (hpq : ∀ c ∈ l.checks, ∀ a ∈ c.arg, p a → q a) : l.Fits q where
  pkgs := h.pkgs
  sorted := h.sorted
  fulls := h.fulls
  checks c hc := ⟨(h.checks c hc).repo, (h.checks c hc).name,
    fun a ha => hpq c hc a ha ((h.checks c hc).arg a ha)⟩

/-- What a reader of the format does with a text: it accepts the documented lists and no
others, reads them as they are, and anything else runs the full gate. -/
structure ReadsFormat (g : Gate) (text : GoString) : Prop where
  accepts : (∃ sel, readPackages g.repo g.pkgFile (.text text) = .ok sel) ↔ Documented text
  values : ∀ sel, readPackages g.repo g.pkgFile (.text text) = .ok sel →
    ∃ l : Listing, l.Fits Field ∧ text = l.text ∧ sel = l.selection g.repo
  deviates : ¬Documented text → g.pkgFileSet = true →
    ∀ git, ∃ reason, resolveGateMode g git (.text text) = .ok (.full reason)

/-- The reader keeps to the format except on a list in which a check has an argument that
is empty or holds white space other than a blank. -/
theorem readsFormat_iff (g : Gate) (text : GoString) :
    ReadsFormat g text ↔ ∀ l : Listing, l.Fits Unbroken → Clean text → text = l.text →
      ∀ c ∈ l.checks, ∀ a ∈ c.arg, Field a := by
  constructor
  · rintro hreads l hl hclean rfl c hc a ha
    obtain ⟨-, m, hm, htext⟩ := hreads.accepts.mp ⟨_, readText_text hl hclean _ _⟩
    have hcm := Listing.mem_checks_of_text_eq hl (hm.mono (fun _ _ _ _ => Field.unbroken)) htext hc
    exact (hm.checks c hcm).arg a ha
  · intro hargs
    have hvalues : ∀ sel, readText g.repo g.pkgFile text = .ok sel →
        Clean text ∧ ∃ l : Listing, l.Fits Field ∧ text = l.text ∧ sel = l.selection g.repo := by
      intro sel h
      obtain ⟨hclean, l, hl, rfl⟩ := readText_ok h
      have hfield : l.Fits Field := hl.mono (fun c hc a ha _ => hargs l hl hclean rfl c hc a ha)
      rw [readText_text hl hclean] at h
      exact ⟨hclean, l, hfield, rfl, (Except.ok.inj h).symm⟩
    have haccepts : (∃ sel, readText g.repo g.pkgFile text = .ok sel) ↔ Documented text := by
      constructor
      · rintro ⟨sel, h⟩
        obtain ⟨hclean, l, hl, htext, -⟩ := hvalues sel h
        exact ⟨hclean, l, hl, htext⟩
      · rintro ⟨hclean, l, hl, rfl⟩
        exact ⟨_, readText_text (hl.mono (fun _ _ _ _ => Field.unbroken)) hclean _ _⟩
    refine ⟨haccepts, fun sel h => (hvalues sel h).2, ?_⟩
    intro hnot hset git
    have herror : ∃ e, readText g.repo g.pkgFile text = .error e := by
      cases hread : readText g.repo g.pkgFile text with
      | error e => exact ⟨e, rfl⟩
      | ok sel => exact absurd (haccepts.mp ⟨sel, hread⟩) hnot
    obtain ⟨e, he⟩ := herror
    refine ⟨[.s "--packages: "] ++ e ++ [.s "; full gate"], ?_⟩
    simp only [resolveGateMode, readPackages, hset, he, Bool.true_eq_false, if_false]

/-- A check with a blank behind its name: its argument is there, and empty. -/
def trailingBlank : Listing := ⟨[], [], [⟨lit "apis", lit "buf", some []⟩]⟩

def trailingBlankText : String := "k3sm-affected/v1\n@check apis buf \n@end\n"

/-- The reader takes a check whose argument is empty, which the format has no place for. -/
theorem readPackages_trailingBlank :
    readPackages (lit "apis") (lit "affected") (.text (lit trailingBlankText)) =
        .ok ⟨[], [], [lit "buf "]⟩ ∧
      ¬Documented (lit trailingBlankText) := by
  have htext : lit trailingBlankText = trailingBlank.text := by decide
  have hfits : trailingBlank.Fits Unbroken := by
    refine ⟨by simp [trailingBlank], by simp [trailingBlank], by simp [trailingBlank], ?_⟩
    intro c hc
    obtain rfl := List.mem_singleton.mp hc
    exact ⟨by decide, by decide, by simp [Unbroken]⟩
  have hclean : Clean trailingBlank.text := by
    rw [← htext]
    exact ⟨by decide, trailingBlankText.isValidUTF8⟩
  constructor
  · rw [htext, readPackages, readText_text hfits hclean]
    decide
  · rintro ⟨-, l, hl, hltext⟩
    have hmem := Listing.mem_checks_of_text_eq hfits (hl.mono (fun _ _ _ _ => Field.unbroken))
      (htext.symm.trans hltext) (List.mem_singleton.mpr rfl)
    exact ((hl.checks _ hmem).arg [] rfl).1 rfl

end K3smApis.Affected
