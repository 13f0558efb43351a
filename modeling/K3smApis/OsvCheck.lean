import K3smApis.LockCooldown
import K3smApis.TextLines

/-!
# The malicious-package check

`malicious_check` of `hack/verify-deps.sh` with the helpers it runs: the versions of a lock
are asked for in batches, and one file of hits holds the advisories found next to the page
tokens still to follow. `grep` and `read` work on the lines of that file. A page token or an
identifier with a NUL makes it a binary file for `grep`, which then prints none of its lines:
pages and advisories are lost and the check passes.
-/
namespace K3smApis.Deps

/-- A module and a version of it, as the advisory server is asked for them. -/
structure Query where
  path : Text
  version : Text
  deriving DecidableEq

/-- A page of advisories: `str(v.get("id", ""))` of each, and the token of the next page,
empty when there is none. -/
structure Page where
  ids : List Text
  token : Text

/-- How a request ends. -/
inductive Answer (α : Type) where
  | unreachable
  | garbled
  | data (a : α)

/-- The advisory server. A result of a batch that is no object is `none`. -/
structure Server where
  batch : List Query → Answer (List (Option Page))
  query : Query → Text → Answer Page

/-- What the check fails with. -/
inductive OsvFailure where
  /-- `could not read $1` -/
  | lock
  /-- `network failure querying $OSV_BATCH_URL` -/
  | batchNetwork
  /-- `unreadable response from $OSV_BATCH_URL` -/
  | batchResponse
  /-- `OSV paging did not terminate` -/
  | endless
  /-- `network failure querying $OSV_QUERY_URL` -/
  | queryNetwork
  /-- `unreadable response from $OSV_QUERY_URL` -/
  | queryResponse
  /-- `remove or replace the module versions above` -/
  | malicious
  deriving DecidableEq

/-- The requests sent so far, and the lines of the hits file. -/
structure Session where
  batches : List (List Query)
  follows : List (Query × Text)
  hits : List Text

def Session.start : Session := ⟨[], [], []⟩

/-- A part of the check: it goes on, or fails with what it has sent. -/
abbrev Checked := Except (OsvFailure × Session) Session

/-- One round of the loop of `cmd_osv_build`. Every key of a lock that was read parses. -/
def addQuery (qs : List Query) (e : LockEntry) : List Query :=
  match parseKey e.1 with
  | none => qs
  | some m =>
    if m.isLocal = false ∧ ⟨m.effectivePath, m.effectiveVersion⟩ ∉ qs then
      qs ++ [⟨m.effectivePath, m.effectiveVersion⟩]
    else qs

def queries (lock : List LockEntry) : List Query := lock.foldl addQuery []

/-- `qs[i:i + size] for i in range(0, len(qs), size)` -/
def chunks (size : ℕ) (qs : List Query) : List (List Query) :=
  (List.range ((qs.length + size - 1) / size)).map (fun i => (qs.drop (i * size)).take size)

/-- The file `osv-q` of a chunk. -/
def queryFile (qs : List Query) : Text :=
  Lines.terminated '\n' (qs.map (fun q => q.path ++ ' ' :: q.version))

/-- `mal_ids` -/
def malIds (p : Page) : List Text := p.ids.filter (fun i => i.hasPrefix "MAL-".toList)

def malKey : Text := "MAL ".toList

def malLine (q : Query) (i : Text) : Text :=
  malKey ++ (i ++ ' ' :: (q.path ++ ' ' :: q.version))

def pageKey : Text := "PAGE ".toList

def pageLine (q : Query) (token : Text) : Text :=
  pageKey ++ (q.path ++ ' ' :: (q.version ++ ' ' :: token))

/-- The lines printed for one page. An identifier may hold a line feed. -/
def pageOutput (q : Query) (p : Page) : List Text :=
  ((malIds p).map (malLine q) ++ if p.token = [] then [] else [pageLine q p.token]).flatMap
    Text.lines

/-- The loop of `cmd_osv_parse` over the queries and their results. -/
def parseResults : List (List Text × Option Page) → Option (List Text)
  | [] => some []
  | ([p, v], some page) :: rest => (parseResults rest).map (pageOutput ⟨p, v⟩ page ++ ·)
  | _ :: _ => none

/-- `cmd_osv_parse` -/
def osvParse (file : Text) (results : List (Option Page)) : Option (List Text) :=
  let qs := ((Lines.fileLines file).filter (fun l => strip l ≠ [])).map words
  if results.length ≠ qs.length then none else parseResults (qs.zip results)

/-- The batch of one chunk. -/
def sendBatch (srv : Server) (s : Session) (qs : List Query) : Checked :=
  let s := { s with batches := s.batches ++ [qs] }
  match srv.batch qs with
  | .unreachable => .error (.batchNetwork, s)
  | .garbled => .error (.batchResponse, s)
  | .data results =>
    match osvParse (queryFile qs) results with
    | none => .error (.batchResponse, s)
    | some out => .ok { s with hits := s.hits ++ out }

/-- The character that makes a file binary. -/
def nul : Char := Char.ofNat 0

/-- A separator of the shell's `read`. -/
def isIfs (c : Char) : Bool := c = ' ' || c = '\t' || c = '\n'

/-- The first field of a line, and the rest behind it. -/
def nextField (t : Text) : Text × Text :=
  ((t.dropWhile isIfs).takeWhile (fun c => !isIfs c),
    (t.dropWhile isIfs).dropWhile (fun c => !isIfs c))

/-- `read -r _ p v tok`. The shell drops a NUL. -/
def readFields (line : Text) : Query × Text :=
  let p := nextField (nextField (line.filter (· ≠ nul))).2
  let v := nextField p.2
  (⟨p.1, v.1⟩, (v.2.dropWhile isIfs).rdropWhile isIfs)

/-- The request of one line of the pages file. -/
def followPage (srv : Server) (s : Session) (line : Text) : Checked :=
  let r := readFields line
  let s := { s with follows := s.follows ++ [r] }
  match srv.query r.1 r.2 with
  | .unreachable => .error (.queryNetwork, s)
  | .garbled => .error (.queryResponse, s)
  | .data page => .ok { s with hits := s.hits ++ pageOutput r.1 page }

def isPageLine (l : Text) : Bool := l.hasPrefix pageKey

def isMalLine (l : Text) : Bool := l.hasPrefix malKey

/-- What `grep` makes of a binary file, given as its lines: whether it finds a line that
starts with a key, and the lines it prints that start with one, or with `-v` do not. -/
structure Grep where
  finds : Text → List Text → Bool
  prints : Text → Bool → List Text → List Text

/-- GNU grep from 3.5 on, with a file that fits its buffer: a NUL ends a line too, and no
line is printed. -/
def gnuGrep : Grep where
  finds key ls := ls.any (fun l => (l.splitOn nul).any (fun part => Text.hasPrefix part key))
  prints _ _ _ := []

def isBinary (ls : List Text) : Bool := ls.any (nul ∈ ·)

/-- `grep -q "^$key"` -/
def Grep.quiet (g : Grep) (key : Text) (ls : List Text) : Bool :=
  if isBinary ls then g.finds key ls else ls.any (·.hasPrefix key)

/-- `grep "^$key"`, or `grep -v "^$key"`. -/
def Grep.lines (g : Grep) (key : Text) (invert : Bool) (ls : List Text) : List Text :=
  if isBinary ls then g.prints key invert ls else ls.filter (fun l => l.hasPrefix key != invert)

/-- One round of paging: the pages leave the hits, and each is followed. -/
def pageRound (g : Grep) (srv : Server) (s : Session) : Checked :=
  (g.lines pageKey false s.hits).foldlM (followPage srv)
    { s with hits := g.lines pageKey true s.hits }

/-- The paging loop with so many rounds left. -/
def paging (g : Grep) (srv : Server) : ℕ → Session → Checked
  | 0, s => if g.quiet pageKey s.hits then .error (.endless, s) else .ok s
  | left + 1, s =>
    if g.quiet pageKey s.hits then pageRound g srv s >>= paging g srv left else .ok s

/-- `malicious_check` of the lines of a lock. `range` refuses a step of zero. -/
def maliciousCheck (g : Grep) (srv : Server) (size : ℕ) (lock : List Text) : Checked :=
  match readLock lock with
  | .error _ => .error (.lock, .start)
  | .ok es =>
    if size = 0 then .error (.lock, .start)
    else do
      let s ← (chunks size (queries es)).foldlM (sendBatch srv) .start
      let s ← paging g srv 50 s
      if g.quiet malKey s.hits then .error (.malicious, s) else .ok s

/-- Whether a page is still to be followed. -/
def Session.pending (s : Session) : Bool := s.hits.any isPageLine

/-- What was sent, whatever the end. -/
def session : Checked → Session
  | .error (_, s) => s
  | .ok s => s

/-- A server that answers each batch with one page per query, in order, and every request
for a page; its tokens hold no white space. -/
structure Serves (srv : Server) (first : Query → Page) (next : Query → Text → Page) : Prop where
  batch : ∀ qs, srv.batch qs = .data (qs.map (fun q => some (first q)))
  query : ∀ q t, srv.query q t = .data (next q t)
  firstToken : ∀ q, ∀ c ∈ (first q).token, isSpace c = false
  nextToken : ∀ q t, ∀ c ∈ (next q t).token, isSpace c = false

/-- The pages of a query: the one in its batch, and those its tokens lead to. -/
def chain (first : Query → Page) (next : Query → Text → Page) (q : Query) : ℕ → Option Page
  | 0 => some (first q)
  | k + 1 => (chain first next q k).bind (fun p =>
      if p.token = [] then none else some (next q p.token))

theorem chain_succ {first : Query → Page} {next : Query → Text → Page} {q : Query} {k : ℕ}
    {p : Page} (h : chain first next q (k + 1) = some p) :
    ∃ p₀, chain first next q k = some p₀ ∧ p₀.token ≠ [] ∧ p = next q p₀.token := by
  rw [chain, Option.bind_eq_some_iff] at h
  obtain ⟨p₀, hk, h⟩ := h
  split_ifs at h with htok
  exact ⟨p₀, hk, htok, (Option.some.inj h).symm⟩

/-- Behind its last page a chain has none. -/
theorem chain_eq_none_of_le {first : Query → Page} {next : Query → Text → Page} {q : Query}
    {j k : ℕ} (hjk : j ≤ k) (h : chain first next q j = none) : chain first next q k = none := by
  induction hjk with
  | refl => exact h
  | step _ ih => rw [chain, ih, Option.bind_none]

theorem Serves.token {srv : Server} {first : Query → Page} {next : Query → Text → Page}
    (hs : Serves srv first next) {q : Query} {k : ℕ} {p : Page}
    (h : chain first next q k = some p) : ∀ c ∈ p.token, isSpace c = false := by
  cases k with
  | zero =>
    obtain rfl : first q = p := Option.some.inj h
    exact hs.firstToken q
  | succ k =>
    obtain ⟨p₀, -, -, rfl⟩ := chain_succ h
    exact hs.nextToken q p₀.token

/-- A page of which no NUL is printed. -/
structure Page.NulFree (p : Page) : Prop where
  token : nul ∉ p.token
  ids : ∀ i ∈ malIds p, nul ∉ i

/-- A server of such pages. -/
structure NulFree (first : Query → Page) (next : Query → Text → Page) : Prop where
  first : ∀ q, (first q).NulFree
  next : ∀ q t, (next q t).NulFree

/-- A text of at least one rune and no white space. -/
structure Word (t : Text) : Prop where
  ne_nil : t ≠ []
  solid : ∀ c ∈ t, isSpace c = false

theorem word_of_mem_words {t w : Text} (h : w ∈ words t) : Word w := by
  obtain ⟨hmem, hne⟩ := List.mem_filter.mp h
  exact ⟨by simpa using hne, Lines.of_mem_splitOnP hmem⟩

theorem Word.notMem {w : Text} (hw : Word w) {c : Char} (hc : isSpace c = true) : c ∉ w := by
  intro hmem
  have := hw.solid c hmem
  simp [hc] at this

theorem solid_of_all {t : Text} (h : t.all (fun c => !isSpace c) = true) :
    ∀ c ∈ t, isSpace c = false := by
  simpa using h

/-- A query with a module and a version that are words. -/
def IsQuery (q : Query) : Prop := Word q.path ∧ Word q.version

/-- The version that is built for a key, unless a directory is. -/
def Built (e : LockEntry) (q : Query) : Prop :=
  ∃ m, parseKey e.1 = some m ∧ m.isLocal = false ∧ q = ⟨m.effectivePath, m.effectiveVersion⟩

theorem Built.mem_words {e : LockEntry} {q : Query} (h : Built e q) :
    q.path ∈ words e.1 ∧ q.version ∈ words e.1 := by
  obtain ⟨m, hm, hremote, rfl⟩ := h
  unfold parseKey at hm
  split at hm
  case h_1 p v hwords =>
    obtain rfl := Option.some.inj hm
    simp [hwords]
  case h_2 p v arrow q hwords =>
    split_ifs at hm
    obtain rfl := Option.some.inj hm
    cases hremote
  case h_3 p v arrow q w hwords =>
    split_ifs at hm
    obtain rfl := Option.some.inj hm
    simp [hwords]
  case h_4 => cases hm

theorem Built.subset {e : LockEntry} {q : Query} (h : Built e q) :
    q.path ⊆ e.1 ∧ q.version ⊆ e.1 :=
  ⟨Lines.subset_of_mem_splitOnP (List.mem_filter.mp h.mem_words.1).1,
    Lines.subset_of_mem_splitOnP (List.mem_filter.mp h.mem_words.2).1⟩

theorem Built.isQuery {e : LockEntry} {q : Query} (h : Built e q) : IsQuery q :=
  ⟨word_of_mem_words h.mem_words.1, word_of_mem_words h.mem_words.2⟩

theorem addQuery_cases (qs : List Query) (e : LockEntry) :
    (addQuery qs e = qs ∧ ∀ q, Built e q → q ∈ qs) ∨
      ∃ q, Built e q ∧ q ∉ qs ∧ addQuery qs e = qs ++ [q] := by
  cases hm : parseKey e.1 with
  | none => exact .inl ⟨by simp [addQuery, hm], by simp [Built, hm]⟩
  | some m =>
    by_cases hnew : m.isLocal = false ∧ ⟨m.effectivePath, m.effectiveVersion⟩ ∉ qs
    · refine .inr ⟨_, ⟨m, hm, hnew.1, rfl⟩, hnew.2, ?_⟩
      simp only [addQuery, hm, if_pos hnew]
    · refine .inl ⟨by simp only [addQuery, hm, if_neg hnew], ?_⟩
      rintro q ⟨m', hm', hremote, rfl⟩
      obtain rfl : m = m' := Option.some.inj (hm.symm.trans hm')
      by_contra hnot
      exact hnew ⟨hremote, hnot⟩

theorem foldl_addQuery (es : List LockEntry) {qs : List Query} (h : qs.Nodup) :
    (es.foldl addQuery qs).Nodup ∧
      ∀ q, q ∈ es.foldl addQuery qs ↔ q ∈ qs ∨ ∃ e ∈ es, Built e q := by
  induction es generalizing qs with
  | nil => exact ⟨h, by simp⟩
  | cons e es ih =>
    rw [List.foldl_cons]
    rcases addQuery_cases qs e with ⟨hsame, hin⟩ | ⟨q₀, hq₀, hnew, hadd⟩
    · rw [hsame]
      refine ⟨(ih h).1, fun q => ?_⟩
      rw [(ih h).2 q, List.exists_mem_cons_iff]
      have := hin q
      tauto
    · rw [hadd]
      have hnodup : (qs ++ [q₀]).Nodup := by
        rw [List.nodup_append]
        refine ⟨h, by simp, ?_⟩
        rintro a ha b hb rfl
        obtain rfl := List.mem_singleton.mp hb
        exact hnew ha
      refine ⟨(ih hnodup).1, fun q => ?_⟩
      rw [(ih hnodup).2 q, List.exists_mem_cons_iff, List.mem_append, List.mem_singleton]
      constructor
      · rintro ((hq | rfl) | hq)
        · exact .inl hq
        · exact .inr (.inl hq₀)
        · exact .inr (.inr hq)
      · rintro (hq | hq | hq)
        · exact .inl (.inl hq)
        · obtain ⟨m, hm, -, rfl⟩ := hq
          obtain ⟨m', hm', -, rfl⟩ := hq₀
          obtain rfl : m = m' := Option.some.inj (hm.symm.trans hm')
          exact .inl (.inr rfl)
        · exact .inr hq

/-- The queries of a lock are the versions it builds, each once. -/
theorem queries_spec (es : List LockEntry) :
    (queries es).Nodup ∧ ∀ q, q ∈ queries es ↔ ∃ e ∈ es, Built e q := by
  obtain ⟨hnodup, hmem⟩ := foldl_addQuery es List.nodup_nil
  refine ⟨hnodup, fun q => (hmem q).trans ?_⟩
  rw [List.mem_nil_iff, false_or]

theorem flatMap_range_take {α : Type*} (l : List α) (size n : ℕ) :
    (List.range n).flatMap (fun i => (l.drop (i * size)).take size) = l.take (n * size) := by
  induction n with
  | zero => simp
  | succ n ih =>
    rw [List.range_succ, List.flatMap_append, ih, Nat.succ_mul, List.take_add]
    simp

/-- The chunks are the queries in order, none left out. -/
theorem flatten_chunks {size : ℕ} (h : 0 < size) (qs : List Query) :
    (chunks size qs).flatten = qs := by
  have hall : qs.length ≤ (qs.length + size - 1) / size * size := by
    have hmod := Nat.mod_lt (qs.length + size - 1) h
    have hdiv := Nat.div_add_mod' (qs.length + size - 1) size
    omega
  rw [chunks, ← List.flatMap_def, flatMap_range_take, List.take_of_length_le hall]

theorem isIfs_isSpace {c : Char} (h : isIfs c = true) : isSpace c = true := by
  simp only [isIfs, Bool.or_eq_true, decide_eq_true_eq] at h
  rcases h with (rfl | rfl) | rfl <;> decide

/-- `read` takes a word up to the blank behind it. -/
theorem nextField_append {w : Text} (hw : Word w) (t : Text) :
    nextField (w ++ ' ' :: t) = (w, ' ' :: t) := by
  have hnot : ∀ c ∈ w, isIfs c = false := by
    intro c hc
    by_contra hifs
    have := hw.solid c hc
    simp [isIfs_isSpace (by simpa using hifs)] at this
  have hall : ∀ c ∈ w, (!isIfs c) = true := fun c hc => by simp [hnot c hc]
  obtain ⟨a, w', rfl⟩ := List.exists_cons_of_ne_nil hw.ne_nil
  have hdrop : ((a :: w') ++ ' ' :: t).dropWhile isIfs = (a :: w') ++ ' ' :: t :=
    List.dropWhile_cons_of_neg (by simp [hnot a (by simp)])
  rw [nextField, hdrop, List.takeWhile_append_of_pos hall, List.dropWhile_append_of_pos hall]
  simp [isIfs]

theorem nextField_blank {w : Text} (hw : Word w) (t : Text) :
    nextField (' ' :: (w ++ ' ' :: t)) = (w, ' ' :: t) :=
  nextField_append hw t

/-- A token is read back with the query it belongs to. -/
theorem readFields_pageLine {q : Query} (hq : IsQuery q) {token : Text}
    (htok : ∀ c ∈ token, isSpace c = false) (hnul : nul ∉ pageLine q token) :
    readFields (pageLine q token) = (q, token) := by
  have hwhole : (pageLine q token).filter (· ≠ nul) = pageLine q token := by
    rw [List.filter_eq_self]
    intro c hc
    exact decide_eq_true (ne_of_mem_of_not_mem hc hnul)
  have hkey : nextField (pageLine q token) =
      ("PAGE".toList, ' ' :: (q.path ++ ' ' :: (q.version ++ ' ' :: token))) :=
    nextField_append (w := "PAGE".toList) ⟨by decide, solid_of_all (by decide)⟩ _
  have hsolid : ∀ c ∈ token, isIfs c = false := by
    intro c hc
    by_contra hifs
    have := htok c hc
    simp [isIfs_isSpace (by simpa using hifs)] at this
  have hfront : (' ' :: token).dropWhile isIfs = token := by
    rw [List.dropWhile_cons_of_pos (by decide), List.dropWhile_eq_self_iff]
    intro hlen
    simp [hsolid _ (List.getElem_mem hlen)]
  have hback : token.rdropWhile isIfs = token := by
    rw [List.rdropWhile_eq_self_iff]
    intro hne
    simp [hsolid _ (List.getLast_mem hne)]
  simp only [readFields, hwhole, hkey, nextField_blank hq.1, nextField_blank hq.2, hfront, hback]

theorem isPageLine_pageLine (q : Query) (token : Text) : isPageLine (pageLine q token) = true := by
  rw [isPageLine, Text.hasPrefix_iff]
  exact List.prefix_append _ _

theorem not_isPageLine_of_isMalLine {l : Text} (h : isMalLine l = true) : isPageLine l = false := by
  rw [isMalLine, Text.hasPrefix_iff] at h
  obtain ⟨t, rfl⟩ := h
  rfl

theorem lines_pageLine {q : Query} (hq : IsQuery q) {token : Text}
    (htok : ∀ c ∈ token, isSpace c = false) : (pageLine q token).lines = [pageLine q token] := by
  have hp : '\n' ∉ q.path := hq.1.notMem (by decide)
  have hv : '\n' ∉ q.version := hq.2.notMem (by decide)
  have ht : '\n' ∉ token := by
    intro hmem
    have := htok _ hmem
    simp [isSpace, Text.isSpace, Text.isBlank] at this
  have hkey : '\n' ∉ pageKey := by decide
  exact List.splitOn_eq_singleton (by simp [pageLine, hkey, hp, hv, ht])

/-- The first line that is printed for a malicious package says so. -/
theorem any_isMalLine_lines (q : Query) (i : Text) : (malLine q i).lines.any isMalLine = true := by
  have hkey : '\n' ∉ malKey := by decide
  obtain ⟨c, ls, hsplit⟩ :=
    Lines.exists_splitOn_append hkey (i ++ ' ' :: (q.path ++ ' ' :: q.version))
  have hmal : isMalLine (malKey ++ c) = true := by
    rw [isMalLine, Text.hasPrefix_iff]
    exact List.prefix_append _ _
  rw [malLine, Text.lines, hsplit, List.any_cons, hmal, Bool.true_or]

theorem any_isMalLine_pageOutput {q : Query} {p : Page} (h : malIds p ≠ []) :
    (pageOutput q p).any isMalLine = true := by
  obtain ⟨i, is, hids⟩ := List.exists_cons_of_ne_nil h
  simp [pageOutput, hids, any_isMalLine_lines]

theorem pageLine_mem_pageOutput {q : Query} (hq : IsQuery q) {p : Page}
    (htok : ∀ c ∈ p.token, isSpace c = false) (hne : p.token ≠ []) :
    pageLine q p.token ∈ pageOutput q p := by
  rw [pageOutput, if_neg hne, List.flatMap_append, List.mem_append]
  right
  simp [lines_pageLine hq htok]

/-- Without a malicious package the page's token is all that is printed. -/
theorem pageOutput_of_malIds_nil {q : Query} (hq : IsQuery q) {p : Page}
    (htok : ∀ c ∈ p.token, isSpace c = false) (hmal : malIds p = []) :
    pageOutput q p = if p.token = [] then [] else [pageLine q p.token] := by
  rw [pageOutput, hmal]
  split_ifs with hne
  · rfl
  · simp [lines_pageLine hq htok]

/-- No line of the hits holds a NUL. -/
def Session.Plain (s : Session) : Prop := ∀ l ∈ s.hits, nul ∉ l

theorem isBinary_eq_false {ls : List Text} (h : ∀ l ∈ ls, nul ∉ l) : isBinary ls = false := by
  simpa [isBinary] using h

theorem Grep.quiet_of_plain (g : Grep) (key : Text) {ls : List Text} (h : ∀ l ∈ ls, nul ∉ l) :
    g.quiet key ls = ls.any (·.hasPrefix key) := by
  rw [Grep.quiet, isBinary_eq_false h]
  rfl

theorem Grep.lines_of_plain (g : Grep) (key : Text) (invert : Bool) {ls : List Text}
    (h : ∀ l ∈ ls, nul ∉ l) :
    g.lines key invert ls = ls.filter (fun l => l.hasPrefix key != invert) := by
  rw [Grep.lines, isBinary_eq_false h]
  rfl

theorem nul_notMem_pageOutput {q : Query} (hpath : nul ∉ q.path) (hversion : nul ∉ q.version)
    {p : Page} (hp : p.NulFree) {l : Text} (hl : l ∈ pageOutput q p) : nul ∉ l := by
  obtain ⟨t, ht, hl⟩ := List.mem_flatMap.mp hl
  refine fun hmem => absurd (Lines.subset_of_mem_splitOn hl hmem) ?_
  have hblank : nul ≠ ' ' := by decide
  rcases List.mem_append.mp ht with hmal | hpage
  · obtain ⟨i, hi, rfl⟩ := List.mem_map.mp hmal
    have hkey : nul ∉ malKey := by decide
    simp only [malLine, List.mem_append, List.mem_cons]
    have hid := hp.ids i hi
    tauto
  · split_ifs at hpage with hnil
    · cases hpage
    · obtain rfl := List.mem_singleton.mp hpage
      have hkey : nul ∉ pageKey := by decide
      have htoken := hp.token
      simp only [pageLine, List.mem_append, List.mem_cons]
      tauto

theorem nul_notMem_readFields (l : Text) :
    nul ∉ (readFields l).1.path ∧ nul ∉ (readFields l).1.version := by
  have hfirst {t : Text} (h : nul ∉ t) : nul ∉ (nextField t).1 ∧ nul ∉ (nextField t).2 := by
    have hdrop : nul ∉ t.dropWhile isIfs := fun hmem => h ((List.dropWhile_suffix _).subset hmem)
    exact ⟨fun hmem => hdrop ((List.takeWhile_prefix _).subset hmem),
      fun hmem => hdrop ((List.dropWhile_suffix _).subset hmem)⟩
  have hline : nul ∉ l.filter (· ≠ nul) := by simp
  have hpath := hfirst (hfirst hline).2
  exact ⟨hpath.1, (hfirst hpath.2).1⟩

theorem words_query {q : Query} (hq : IsQuery q) :
    words (q.path ++ ' ' :: q.version) = [q.path, q.version] := by
  have hsplit : (q.path ++ ' ' :: q.version).splitOnP isSpace = [q.path, q.version] := by
    rw [List.splitOnP_append_cons_of_forall_mem hq.1.solid ' ' (by decide),
      List.splitOnP_eq_singleton hq.2.solid]
  simp [words, hsplit, hq.1.ne_nil, hq.2.ne_nil]

theorem strip_query_ne_nil {q : Query} (hq : IsQuery q) :
    strip (q.path ++ ' ' :: q.version) ≠ [] := by
  obtain ⟨c, t, hc⟩ := List.exists_cons_of_ne_nil hq.1.ne_nil
  have hsolid : isSpace c = false := hq.1.solid c (by simp [hc])
  intro hnil
  have hhead := strip_head hsolid (t := t ++ ' ' :: q.version)
  rw [← List.cons_append, ← hc, hnil] at hhead
  cases hhead

theorem parseResults_zip {qs : List Query} (first : Query → Page) :
    parseResults ((qs.map (fun q => [q.path, q.version])).zip (qs.map (fun q => some (first q)))) =
      some (qs.flatMap (fun q => pageOutput q (first q))) := by
  induction qs with
  | nil => rfl
  | cons q qs ih =>
    rw [List.map_cons, List.map_cons, List.zip_cons_cons, parseResults, ih]
    rfl

/-- A chunk's results are read next to the queries they answer. -/
theorem osvParse_queryFile {qs : List Query} (hqs : ∀ q ∈ qs, IsQuery q) (first : Query → Page) :
    osvParse (queryFile qs) (qs.map (fun q => some (first q))) =
      some (qs.flatMap (fun q => pageOutput q (first q))) := by
  have hlines : Lines.fileLines (queryFile qs) = qs.map (fun q => q.path ++ ' ' :: q.version) := by
    apply Lines.fileLines_terminated
    intro l hl
    obtain ⟨q, hq, rfl⟩ := List.mem_map.mp hl
    obtain ⟨hp, hv⟩ := hqs q hq
    have hn : isSpace '\n' = true := by decide
    have hr : isSpace '\r' = true := by decide
    simp [hp.notMem hn, hv.notMem hn, hp.notMem hr, hv.notMem hr]
  have hkept : (qs.map (fun q => q.path ++ ' ' :: q.version)).filter (fun l => strip l ≠ []) =
      qs.map (fun q => q.path ++ ' ' :: q.version) := by
    rw [List.filter_eq_self]
    intro l hl
    obtain ⟨q, hq, rfl⟩ := List.mem_map.mp hl
    exact decide_eq_true (strip_query_ne_nil (hqs q hq))
  have hwords : (qs.map (fun q => q.path ++ ' ' :: q.version)).map words =
      qs.map (fun q => [q.path, q.version]) := by
    rw [List.map_map]
    exact List.map_congr_left (fun q hq => words_query (hqs q hq))
  rw [osvParse, hlines, hkept, hwords, if_neg (by simp), parseResults_zip]

section Run

variable {g : Grep} {srv : Server} {first : Query → Page} {next : Query → Text → Page}

theorem Serves.sendBatches (hs : Serves srv first next) {bs : List (List Query)}
    (hbs : ∀ b ∈ bs, ∀ q ∈ b, IsQuery q) (s : Session) :
    bs.foldlM (sendBatch srv) s = .ok { s with
      batches := s.batches ++ bs
      hits := s.hits ++ bs.flatten.flatMap (fun q => pageOutput q (first q)) } := by
  induction bs generalizing s with
  | nil => simp [pure, Except.pure]
  | cons b bs ih =>
    have hb : sendBatch srv s b = .ok { s with
        batches := s.batches ++ [b]
        hits := s.hits ++ b.flatMap (fun q => pageOutput q (first q)) } := by
      simp only [sendBatch, hs.batch, osvParse_queryFile (hbs b (by simp))]
    rw [List.foldlM_cons, hb]
    show bs.foldlM (sendBatch srv) _ = _
    rw [ih (fun c hc => hbs c (by simp [hc]))]
    simp

/-- The hits after a round in which every page was answered. -/
def nextRound (next : Query → Text → Page) (s : Session) : Session where
  batches := s.batches
  follows := s.follows ++ (s.hits.filter isPageLine).map readFields
  hits := s.hits.filter (fun l => !isPageLine l) ++ (s.hits.filter isPageLine).flatMap (fun l =>
    pageOutput (readFields l).1 (next (readFields l).1 (readFields l).2))

theorem Serves.followPages (hs : Serves srv first next) (ls : List Text) (s : Session) :
    ls.foldlM (followPage srv) s = .ok { s with
      follows := s.follows ++ ls.map readFields
      hits := s.hits ++ ls.flatMap (fun l =>
        pageOutput (readFields l).1 (next (readFields l).1 (readFields l).2)) } := by
  induction ls generalizing s with
  | nil => simp [pure, Except.pure]
  | cons l ls ih =>
    have hl : followPage srv s l = .ok { s with
        follows := s.follows ++ [readFields l]
        hits := s.hits ++
          pageOutput (readFields l).1 (next (readFields l).1 (readFields l).2) } := by
      simp only [followPage, hs.query]
    rw [List.foldlM_cons, hl]
    show ls.foldlM (followPage srv) _ = _
    rw [ih]
    simp

theorem Serves.pageRound_eq (hs : Serves srv first next) {s : Session} (hplain : s.Plain) :
    pageRound g srv s = .ok (nextRound next s) := by
  rw [pageRound, g.lines_of_plain _ _ hplain, g.lines_of_plain _ _ hplain, hs.followPages]
  simp only [Bool.bne_false, Bool.bne_true]
  rfl

theorem Session.Plain.nextRound {s : Session} (h : s.Plain) (hnext : ∀ q t, (next q t).NulFree) :
    (nextRound next s).Plain := by
  intro l hl
  rcases List.mem_append.mp hl with hkept | hnew
  · exact h l (List.mem_filter.mp hkept).1
  · obtain ⟨page, -, hl⟩ := List.mem_flatMap.mp hnew
    obtain ⟨hpath, hversion⟩ := nul_notMem_readFields page
    exact nul_notMem_pageOutput hpath hversion (hnext _ _) hl

/-- What every round keeps holds where the paging ends: with no page pending, or with the
rounds used up. -/
theorem Serves.paging_run (hs : Serves srv first next) {I : ℕ → Session → Prop}
    (hplain : ∀ k s, I k s → s.Plain) (hstep : ∀ k s, I k s → I (k + 1) (nextRound next s))
    (left : ℕ) {k : ℕ} {s : Session} (h : I k s) :
    ∃ m s', I m s' ∧ m ≤ k + left ∧
      ((paging g srv left s = .ok s' ∧ s'.pending = false) ∨
        (paging g srv left s = .error (.endless, s') ∧ m = k + left ∧ s'.pending = true)) := by
  have hquiet {k : ℕ} {s : Session} (h : I k s) : g.quiet pageKey s.hits = s.pending :=
    g.quiet_of_plain _ (hplain k s h)
  induction left generalizing k s with
  | zero =>
    refine ⟨k, s, h, le_refl k, ?_⟩
    cases hp : s.pending with
    | false => exact .inl ⟨by simp [paging, hquiet h, hp], rfl⟩
    | true => exact .inr ⟨by simp [paging, hquiet h, hp], rfl, rfl⟩
  | succ left ih =>
    cases hp : s.pending with
    | false => exact ⟨k, s, h, by omega, .inl ⟨by simp [paging, hquiet h, hp], hp⟩⟩
    | true =>
      obtain ⟨m, s', hI, hm, hend⟩ := ih (hstep k s h)
      have hround : paging g srv (left + 1) s = paging g srv left (nextRound next s) := by
        rw [paging, hquiet h, hp, if_pos rfl, hs.pageRound_eq (hplain k s h)]
        rfl
      refine ⟨m, s', hI, by omega, ?_⟩
      rw [hround]
      rcases hend with hok | ⟨herr, rfl, hpending⟩
      · exact .inl hok
      · exact .inr ⟨herr, by omega, hpending⟩

/-- After `k` rounds: every page up to the `k`-th of a query has been read, its malicious
packages are in the hits, and the token of the `k`-th is pending. -/
structure Reached (first : Query → Page) (next : Query → Text → Page) (qs : List Query) (k : ℕ)
    (s : Session) : Prop where
  found : ∀ q ∈ qs, ∀ j ≤ k, ∀ p, chain first next q j = some p → malIds p ≠ [] →
    s.hits.any isMalLine = true
  followed : ∀ q ∈ qs, ∀ j < k, ∀ p, chain first next q j = some p → p.token ≠ [] →
    (q, p.token) ∈ s.follows
  pending : ∀ q ∈ qs, ∀ p, chain first next q k = some p → p.token ≠ [] →
    pageLine q p.token ∈ s.hits

/-- A pending page's output is in the hits of the next round. -/
theorem mem_nextRound {q : Query} (hq : IsQuery q) {token : Text}
    (htok : ∀ c ∈ token, isSpace c = false) {s : Session} (hplain : s.Plain)
    (h : pageLine q token ∈ s.hits) {l : Text} (hl : l ∈ pageOutput q (next q token)) :
    l ∈ (nextRound next s).hits := by
  refine List.mem_append_right _ (List.mem_flatMap.mpr ⟨pageLine q token, ?_, ?_⟩)
  · exact List.mem_filter.mpr ⟨h, isPageLine_pageLine q token⟩
  · rwa [readFields_pageLine hq htok (hplain _ h)]

theorem NulFree.plain_start (h : NulFree first next) {qs : List Query}
    (hqs : ∀ q ∈ qs, nul ∉ q.path ∧ nul ∉ q.version) {s : Session}
    (hhits : s.hits = qs.flatMap (fun q => pageOutput q (first q))) : s.Plain := by
  intro l hl
  rw [hhits] at hl
  obtain ⟨q, hq, hl⟩ := List.mem_flatMap.mp hl
  exact nul_notMem_pageOutput (hqs q hq).1 (hqs q hq).2 (h.first q) hl

theorem Serves.reached_start (hs : Serves srv first next) {qs : List Query}
    (hqs : ∀ q ∈ qs, IsQuery q) {s : Session}
    (hhits : s.hits = qs.flatMap (fun q => pageOutput q (first q))) :
    Reached first next qs 0 s where
  found q hq j hj p hp hmal := by
    obtain rfl : j = 0 := by omega
    obtain rfl : first q = p := Option.some.inj hp
    obtain ⟨l, hl, hmalLine⟩ := List.any_eq_true.mp (any_isMalLine_pageOutput (q := q) hmal)
    exact List.any_eq_true.mpr ⟨l, hhits ▸ List.mem_flatMap.mpr ⟨q, hq, hl⟩, hmalLine⟩
  followed q hq j hj := absurd hj (by omega)
  pending q hq p hp hne := by
    obtain rfl : first q = p := Option.some.inj hp
    have hl := pageLine_mem_pageOutput (hqs q hq) (hs.firstToken q) hne
    exact hhits ▸ List.mem_flatMap.mpr ⟨q, hq, hl⟩

theorem Serves.reached_next (hs : Serves srv first next) {qs : List Query}
    (hqs : ∀ q ∈ qs, IsQuery q) {k : ℕ} {s : Session} (hplain : s.Plain)
    (h : Reached first next qs k s) :
    Reached first next qs (k + 1) (nextRound next s) where
  found q hq j hj p hp hmal := by
    rcases Nat.lt_or_ge k j with hlate | hearly
    · obtain rfl : j = k + 1 := by omega
      obtain ⟨p₀, hp₀, hne, rfl⟩ := chain_succ hp
      obtain ⟨l, hl, hmalLine⟩ := List.any_eq_true.mp (any_isMalLine_pageOutput (q := q) hmal)
      have hpending := h.pending q hq p₀ hp₀ hne
      have hmem := mem_nextRound (hqs q hq) (hs.token hp₀) hplain hpending hl
      exact List.any_eq_true.mpr ⟨l, hmem, hmalLine⟩
    · -- a line with a malicious package is no page, so the round keeps it
      obtain ⟨l, hl, hmalLine⟩ := List.any_eq_true.mp (h.found q hq j hearly p hp hmal)
      refine List.any_eq_true.mpr
        ⟨l, List.mem_append_left _ (List.mem_filter.mpr ⟨hl, ?_⟩), hmalLine⟩
      simp [not_isPageLine_of_isMalLine hmalLine]
  followed q hq j hj p hp hne := by
    rcases Nat.lt_or_ge j k with hold | hnow
    · exact List.mem_append_left _ (h.followed q hq j hold p hp hne)
    · obtain rfl : j = k := by omega
      have hpending := h.pending q hq p hp hne
      refine List.mem_append_right _ (List.mem_map.mpr ⟨pageLine q p.token, ?_, ?_⟩)
      · exact List.mem_filter.mpr ⟨hpending, isPageLine_pageLine q p.token⟩
      · exact readFields_pageLine (hqs q hq) (hs.token hp) (hplain _ hpending)
  pending q hq p hp hne := by
    obtain ⟨p₀, hp₀, hne₀, rfl⟩ := chain_succ hp
    exact mem_nextRound (hqs q hq) (hs.token hp₀) hplain (h.pending q hq p₀ hp₀ hne₀)
      (pageLine_mem_pageOutput (hqs q hq) (hs.token hp) hne)

/-- After `k` rounds without a malicious package: the hits are pending pages, and nothing
else. -/
def Quiet (first : Query → Page) (next : Query → Text → Page) (qs : List Query) (k : ℕ)
    (s : Session) : Prop :=
  ∀ l ∈ s.hits, ∃ q ∈ qs, ∃ p, chain first next q k = some p ∧ p.token ≠ [] ∧
    l = pageLine q p.token

theorem exists_token_of_mem_pageOutput {q : Query} (hq : IsQuery q) {p : Page}
    (htok : ∀ c ∈ p.token, isSpace c = false) (hmal : malIds p = []) {l : Text}
    (h : l ∈ pageOutput q p) : p.token ≠ [] ∧ l = pageLine q p.token := by
  rw [pageOutput_of_malIds_nil hq htok hmal] at h
  split_ifs at h with hne
  · cases h
  · exact ⟨hne, List.mem_singleton.mp h⟩

theorem Serves.quiet_start (hs : Serves srv first next) {qs : List Query}
    (hqs : ∀ q ∈ qs, IsQuery q)
    (hnone : ∀ q ∈ qs, ∀ k p, chain first next q k = some p → malIds p = []) {s : Session}
    (hhits : s.hits = qs.flatMap (fun q => pageOutput q (first q))) : Quiet first next qs 0 s := by
  intro l hl
  rw [hhits] at hl
  obtain ⟨q, hq, hl⟩ := List.mem_flatMap.mp hl
  obtain ⟨hne, rfl⟩ := exists_token_of_mem_pageOutput (hqs q hq) (hs.firstToken q)
    (hnone q hq 0 (first q) rfl) hl
  exact ⟨q, hq, first q, rfl, hne, rfl⟩

theorem Serves.quiet_next (hs : Serves srv first next) {qs : List Query}
    (hqs : ∀ q ∈ qs, IsQuery q)
    (hnone : ∀ q ∈ qs, ∀ k p, chain first next q k = some p → malIds p = []) {k : ℕ} {s : Session}
    (hplain : s.Plain) (h : Quiet first next qs k s) :
    Quiet first next qs (k + 1) (nextRound next s) := by
  intro l hl
  rcases List.mem_append.mp hl with hkept | hnew
  · obtain ⟨hl, hpage⟩ := List.mem_filter.mp hkept
    obtain ⟨q, -, p, -, -, rfl⟩ := h l hl
    simp [isPageLine_pageLine] at hpage
  · obtain ⟨page, hpage, hl⟩ := List.mem_flatMap.mp hnew
    have hmem := (List.mem_filter.mp hpage).1
    obtain ⟨q, hq, p, hp, hne, rfl⟩ := h page hmem
    rw [readFields_pageLine (hqs q hq) (hs.token hp) (hplain _ hmem)] at hl
    have hsucc : chain first next q (k + 1) = some (next q p.token) := by
      rw [chain, hp, Option.bind_some, if_neg hne]
    obtain ⟨hne', rfl⟩ := exists_token_of_mem_pageOutput (hqs q hq) (hs.token hsucc)
      (hnone q hq (k + 1) _ hsucc) hl
    exact ⟨q, hq, _, hsucc, hne', rfl⟩

def Failed (r : Checked) : Prop := ∃ f s, r = .error (f, s)

/-- Where the check ends: after `m` rounds, with no page pending and a verdict by the
malicious packages in the hits, or after all fifty with a page still pending. -/
theorem Serves.maliciousCheck_run (hs : Serves srv first next) {size : ℕ} (hsize : 0 < size)
    {lock : List Text} {es : List LockEntry} (hlock : readLock lock = .ok es)
    (hkeys : ∀ e ∈ es, nul ∉ e.1) (hnul : NulFree first next) :
    ∃ m s, session (maliciousCheck g srv size lock) = s ∧ s.batches.flatten = queries es ∧ m ≤ 50 ∧
      Reached first next (queries es) m s ∧
      ((∀ q ∈ queries es, ∀ k p, chain first next q k = some p → malIds p = []) →
        Quiet first next (queries es) m s) ∧
      ((s.pending = false ∧
          (Failed (maliciousCheck g srv size lock) ↔ s.hits.any isMalLine = true)) ∨
        (s.pending = true ∧ m = 50 ∧ Failed (maliciousCheck g srv size lock))) := by
  have hqs : ∀ q ∈ queries es, IsQuery q := by
    intro q hq
    obtain ⟨e, -, he⟩ := ((queries_spec es).2 q).mp hq
    exact he.isQuery
  have hplain : ∀ q ∈ queries es, nul ∉ q.path ∧ nul ∉ q.version := by
    intro q hq
    obtain ⟨e, he, hbuilt⟩ := ((queries_spec es).2 q).mp hq
    obtain ⟨hpath, hversion⟩ := hbuilt.subset
    exact ⟨fun h => hkeys e he (hpath h), fun h => hkeys e he (hversion h)⟩
  have hflat := flatten_chunks hsize (queries es)
  have hbatches : ∀ b ∈ chunks size (queries es), ∀ q ∈ b, IsQuery q := by
    intro b hb q hq
    exact hqs q (hflat ▸ List.mem_flatten.mpr ⟨b, hb, hq⟩)
  let s₀ : Session := ⟨chunks size (queries es), [],
    (queries es).flatMap (fun q => pageOutput q (first q))⟩
  have hsend : (chunks size (queries es)).foldlM (sendBatch srv) .start = .ok s₀ := by
    rw [hs.sendBatches hbatches, hflat]
    rfl
  have hcheck : maliciousCheck g srv size lock = paging g srv 50 s₀ >>= fun s =>
      if g.quiet malKey s.hits then .error (.malicious, s) else .ok s := by
    simp only [maliciousCheck, hlock, hsend, if_neg hsize.ne']
    rfl
  obtain ⟨m, s, ⟨hhits, hreached, hsent, hquiet⟩, hm, hend⟩ := hs.paging_run (g := g)
    (I := fun k s => s.Plain ∧ Reached first next (queries es) k s ∧
      s.batches = chunks size (queries es) ∧
      ((∀ q ∈ queries es, ∀ k p, chain first next q k = some p → malIds p = []) →
        Quiet first next (queries es) k s))
    (fun k s h => h.1)
    (fun k s h => ⟨h.1.nextRound hnul.next, hs.reached_next hqs h.1 h.2.1, h.2.2.1,
      fun hnone => hs.quiet_next hqs hnone h.1 (h.2.2.2 hnone)⟩)
    50 (k := 0) (s := s₀)
    ⟨hnul.plain_start hplain rfl, hs.reached_start hqs rfl, rfl,
      fun hnone => hs.quiet_start hqs hnone rfl⟩
  have hasked : s.batches.flatten = queries es := by rw [hsent, hflat]
  rcases hend with ⟨hok, hpending⟩ | ⟨herr, hlast, hpending⟩
  · have hr : maliciousCheck g srv size lock =
        if s.hits.any isMalLine then .error (.malicious, s) else .ok s := by
      rw [hcheck, hok]
      show (if g.quiet malKey s.hits then _ else _) = _
      rw [g.quiet_of_plain _ hhits]
      rfl
    by_cases hmal : s.hits.any isMalLine = true
    · rw [if_pos hmal] at hr
      exact ⟨m, s, by rw [hr]; rfl, hasked, by omega, hreached, hquiet,
        .inl ⟨hpending, iff_of_true ⟨_, _, hr⟩ hmal⟩⟩
    · rw [if_neg hmal] at hr
      have hpass : ¬Failed (maliciousCheck g srv size lock) := by
        rintro ⟨f, s', hfail⟩
        rw [hr] at hfail
        cases hfail
      exact ⟨m, s, by rw [hr]; rfl, hasked, by omega, hreached, hquiet,
        .inl ⟨hpending, iff_of_false hpass hmal⟩⟩
  · have hr : maliciousCheck g srv size lock = .error (.endless, s) := by
      rw [hcheck, herr]
      rfl
    exact ⟨m, s, by rw [hr]; rfl, hasked, by omega, hreached, hquiet,
      .inr ⟨hpending, by omega, _, _, hr⟩⟩

/-- With no page pending every chain has ended. -/
theorem Reached.chain_eq_none {qs : List Query} {k : ℕ} {s : Session}
    (h : Reached first next qs k s) (hpending : s.pending = false) {q : Query} (hq : q ∈ qs) :
    chain first next q (k + 1) = none := by
  cases hp : chain first next q (k + 1) with
  | none => rfl
  | some p =>
    obtain ⟨p₀, hp₀, hne, -⟩ := chain_succ hp
    have hany : s.pending = true :=
      List.any_eq_true.mpr ⟨_, h.pending q hq p₀ hp₀ hne, isPageLine_pageLine q p₀.token⟩
    rw [hpending] at hany
    cases hany

/-- The pages up to the last one: the `k`-th of a chain that ends with the `m`-th. -/
theorem le_of_chain_eq_some {q : Query} {k m : ℕ} {p : Page}
    (h : chain first next q k = some p) (hend : chain first next q (m + 1) = none) : k ≤ m := by
  by_contra hlate
  have hnone := chain_eq_none_of_le (by omega : m + 1 ≤ k) hend
  rw [h] at hnone
  cases hnone

theorem malIds_ne_nil {p : Page} : malIds p ≠ [] ↔ ∃ i ∈ p.ids, "MAL-".toList <+: i := by
  simp [malIds]

end Run

end K3smApis.Deps
