import K3smApis.OsvCheck
import K3smApis.LockDiff

/-!
# Updating the lock

`--update` and `--modules` of hack/verify-deps.sh: update-plan, the fetch and update-write,
which replace the lock once every line has its time, and the checks of the new lines behind
them. A line of the graph keeps the time the lock has for it; a line that is new, or whose
time does not parse, gets the proxy's. The age check comes after the lock is written, so a
run that fails there leaves the new lock behind.
-/
namespace K3smApis.Deps

/-- One character of `escape`. -/
def escapeChar (c : Char) : Text := if c.isUpper then ['!', c.toLower] else [c]

/-- `escape`. -/
def escape (t : Text) : Text := t.flatMap escapeChar

/-- `unescape`, with `str.upper` of a character as an argument. -/
def unescape (upper : Char → Text) : Text → Text
  | '!' :: c :: t => upper c ++ unescape upper t
  | c :: t => c :: unescape upper t
  | [] => []

/-- `"%s/%s/@v/%s.info" % (proxy, escape(ep), escape(ev))`. -/
def infoUrl (proxy path version : Text) : Text :=
  proxy ++ '/' :: (escape path ++ "/@v/".toList ++ (escape version ++ ".info".toList))

/-- `cmd_graph_clean`. -/
def graphClean (lines : List Text) : List Text :=
  ((lines.filter (fun l => strip l ≠ [])).map (fun l => l.rdropWhile isSpace)).dedup.mergeSort
    textLe

/-- `current_graph`: what `go list` prints, cleaned. -/
def currentGraph (goList : Text) : Text :=
  Lines.terminated '\n' (graphClean (Lines.fileLines goList))

/-- `dict(es).get(key)`: the last line of a key counts. -/
def timeOf (es : List LockEntry) (key : Text) : Option Text :=
  (es.filter (fun e => e.1 = key)).getLast?.map Prod.snd

/-- The time of a line of the plan: known, or in a file of the proxy. -/
inductive Recorded where
  | known (time : Text)
  | fetch (path version : Text)
  deriving DecidableEq, Repr

/-- A line of the plan, and whether it is one of the new ones. -/
structure UpdateLine where
  key : Text
  time : Recorded
  isNew : Bool
  deriving DecidableEq, Repr

inductive UpdateFailure where
  /-- `no module list at $list` -/
  | noList
  /-- A malformed module line. -/
  | malformed (key : Text)
  | network (path version : Text)
  | brokenPlan (key : Text)
  | unparseableTime (key time : Text)
  /-- The age check of the new lines. -/
  | cooldown (f : Failure)
  /-- The malicious-package check of the new lines. -/
  | malicious (f : OsvFailure)
  deriving DecidableEq

/-- The time of a filesystem replacement. -/
def localTime : Text := "local".toList

/-- `cmd_update_plan` for one line of the graph. -/
def planUpdate (isDecimal : Char → Bool) (old : List LockEntry) (key : Text) :
    Except UpdateFailure UpdateLine :=
  match parseKey key with
  | none => .error (.malformed key)
  | some m =>
    if m.isLocal then .ok ⟨key, .known localTime, timeOf old key ≠ some localTime⟩
    else
      match (timeOf old key).filter (fun tm => (parseTime isDecimal tm).isSome) with
      | some tm => .ok ⟨key, .known tm, false⟩
      | none => .ok ⟨key, .fetch m.effectivePath m.effectiveVersion, true⟩

/-- `fetch_infos`, then `cmd_update_write` for one line of the plan. A tab in a field breaks
the file of the plan. -/
def writeLine (w : World) (l : UpdateLine) : Except UpdateFailure (LockEntry × Bool) :=
  match l.time with
  | .known tm =>
    if '\t' ∈ l.key ∨ '\t' ∈ tm then .error (.brokenPlan l.key) else .ok ((l.key, tm), l.isNew)
  | .fetch p v =>
    match w.proxy p v with
    | none => .error (.network p v)
    | some tm =>
      if '\t' ∈ l.key then .error (.brokenPlan l.key)
      else if (parseTime w.isDecimal tm).isNone then .error (.unparseableTime l.key tm)
      else .ok ((l.key, tm), l.isNew)

/-- The text of a lock file. -/
def lockText (es : List LockEntry) : Text := Lines.terminated '\n' (header ++ es.map entryLine)

/-- The new lock, and the file of its new lines. -/
structure Updated where
  lock : Text
  delta : Text
  deriving DecidableEq, Repr

/-- The lines of a lock file, none without a file or with a malformed one. -/
def oldEntries (lockFile : Option Text) : List LockEntry :=
  baseEntries (lockFile.map Lines.fileLines)

/-- update-plan, the fetch and update-write. -/
def updateLock (w : World) (lockFile : Option Text) (graphFile : Text) :
    Except UpdateFailure Updated := do
  let plan ← (readGraph (Lines.fileLines graphFile)).mapM
    (planUpdate w.isDecimal (oldEntries lockFile))
  let written ← plan.mapM (writeLine w)
  return ⟨lockText (written.map Prod.fst), lockText ((written.filter Prod.snd).map Prod.fst)⟩

/-- `OSV_BATCH_SIZE`. -/
def osvBatchSize : ℕ := 500

/-- `cooldown_check` and `malicious_check` of a file of lines with trusted times. -/
def checkLines (w : World) (g : Grep) (srv : Server) (exemptFile : List Text) (file : Text) :
    Except UpdateFailure Unit :=
  match cooldown w exemptFile (Lines.fileLines file) with
  | .error f => .error (.cooldown f)
  | .ok () =>
    match maliciousCheck g srv osvBatchSize (Lines.fileLines file) with
    | .error (f, _) => .error (.malicious f)
    | .ok _ => .ok ()

/-- What a run of `--update` finds: the world, the `grep` of the machine, the advisory server,
what `go list` prints and the exemptions. -/
structure UpdateRun where
  world : World
  grep : Grep
  server : Server
  goList : Text
  exempt : List Text

/-- The verdict of `update` on the repository's own lock. -/
def UpdateRun.verdict (r : UpdateRun) (lockFile : Option Text) : Except UpdateFailure Unit := do
  let u ← updateLock r.world lockFile (currentGraph r.goList)
  checkLines r.world r.grep r.server r.exempt u.delta

/-- The lock a run leaves: the new one as soon as every line has its time, whatever the
checks of the new lines say then. -/
def UpdateRun.after (lockFile : Option Text) (r : UpdateRun) : Option Text :=
  match updateLock r.world lockFile (currentGraph r.goList) with
  | .ok u => some u.lock
  | .error _ => lockFile

theorem of_mem_universal {c : Char} {t : Text} (h : c ∈ Lines.universal t) :
    c ≠ '\r' ∧ (c = '\n' ∨ c ∈ t) := by
  induction t using Lines.universal.induct with
  | case1 t ih =>
    rw [Lines.universal, List.mem_cons] at h
    rcases h with rfl | h
    · exact ⟨by decide, .inl rfl⟩
    · exact ⟨(ih h).1, (ih h).2.imp_right fun hc => by simp [hc]⟩
  | case2 t hnext ih =>
    rw [Lines.universal.eq_2 t hnext, List.mem_cons] at h
    rcases h with rfl | h
    · exact ⟨by decide, .inl rfl⟩
    · exact ⟨(ih h).1, (ih h).2.imp_right fun hc => by simp [hc]⟩
  | case3 d t _ hd ih =>
    rw [Lines.universal_cons hd, List.mem_cons] at h
    rcases h with rfl | h
    · exact ⟨hd, .inr List.mem_cons_self⟩
    · exact ⟨(ih h).1, (ih h).2.imp_right fun hc => List.mem_cons_of_mem d hc⟩
  | case4 => simp [Lines.universal] at h

/-- The lines of a file hold its characters, and no line end. -/
theorem of_mem_fileLines {t l : Text} {c : Char} (hl : l ∈ Lines.fileLines t) (hc : c ∈ l) :
    c ∈ t ∧ c ≠ '\n' ∧ c ≠ '\r' := by
  have hsplit : l ∈ (Lines.universal t).splitOn '\n' := by
    unfold Lines.fileLines at hl
    dsimp only at hl
    split_ifs at hl
    · exact List.mem_of_mem_dropLast hl
    · exact hl
  have hfeed : c ≠ '\n' := by
    rintro rfl
    exact Lines.notMem_of_mem_splitOn hsplit hc
  obtain ⟨hreturn, hmem⟩ := of_mem_universal (Lines.subset_of_mem_splitOn hsplit hc)
  exact ⟨hmem.resolve_left hfeed, hfeed, hreturn⟩

/-- A file whose lines were written with a line feed each, some of which may hold one. -/
theorem fileLines_terminated_flatMap {ls : List Text} (h : ∀ l ∈ ls, '\r' ∉ l) :
    Lines.fileLines (Lines.terminated '\n' ls) = ls.flatMap (·.splitOn '\n') := by
  have hcr : '\r' ∉ Lines.terminated '\n' ls := by
    intro hmem
    obtain ⟨l, hl, hin⟩ := List.mem_flatMap.mp hmem
    have hnot := h l hl
    simp [hnot] at hin
  have hsplit (ls : List Text) : (Lines.terminated '\n' ls).splitOn '\n' =
      ls.flatMap (·.splitOn '\n') ++ [[]] := by
    induction ls with
    | nil => exact List.splitOn_nil '\n'
    | cons l ls ih =>
      have hcut : Lines.terminated '\n' (l :: ls) = l ++ '\n' :: Lines.terminated '\n' ls := by
        simp [Lines.terminated]
      rw [hcut, List.splitOn_append_cons_self, ih, List.flatMap_cons, List.append_assoc]
  rw [Lines.fileLines, Lines.universal_of_notMem hcr, hsplit]
  simp

/-- The decimal digits of a regexp are no white space. -/
def DigitsSolid (isDecimal : Char → Bool) : Prop := ∀ c, isDecimal c = true → isSpace c = false

/-- A text without white space. -/
def Solid (t : Text) : Prop := ∀ c ∈ t, isSpace c = false

theorem Solid.stripped {t : Text} (h : Solid t) : Stripped t :=
  ⟨fun c hc => h c (List.mem_of_mem_head? hc), fun c hc => h c (List.mem_of_mem_getLast? hc)⟩

theorem Solid.notMem {t : Text} (h : Solid t) {c : Char} (hc : isSpace c = true) : c ∉ t := by
  intro hmem
  have := h c hmem
  simp [hc] at this

theorem zoneOffset_solid {z : Text} {o : ℤ} (h : zoneOffset z = some o) : Solid z := by
  unfold zoneOffset at h
  split at h
  · exact fun c hc => by rw [List.mem_singleton.mp hc]; decide
  · next sign h0 h1 m0 m1 =>
    dsimp only at h
    split_ifs at h with hd hs hs
    all_goals
      simp only [Bool.and_eq_true, List.all_cons, List.all_nil] at hd
      obtain ⟨⟨d0, d1, d2, d3, -⟩, -⟩ := hd
      simp only [Solid, List.forall_mem_cons]
      refine ⟨by rw [hs]; decide, isSpace_eq_false_of_isDigit d0, isSpace_eq_false_of_isDigit d1,
        by decide, isSpace_eq_false_of_isDigit d2, isSpace_eq_false_of_isDigit d3, by simp⟩
  · cases h

section Times

variable {isDecimal : Char → Bool} (hdigits : DigitsSolid isDecimal)

include hdigits

theorem zonePart_solid {t z : Text} (h : zonePart isDecimal t = some z) (hz : Solid z) :
    Solid t := by
  unfold zonePart at h
  split at h
  · next t =>
    split_ifs at h
    obtain rfl := Option.some.inj h
    intro c hc
    rcases List.mem_cons.mp hc with rfl | hc
    · decide
    · rw [← List.takeWhile_append_dropWhile (p := isDecimal) (l := t)] at hc
      rcases List.mem_append.mp hc with hc | hc
      · exact hdigits c (List.mem_takeWhile_imp hc)
      · exact hz c hc
  · obtain rfl := Option.some.inj h
    exact hz

theorem parseStamp_solid {t : Text} {b : ℤ} (h : parseStamp isDecimal t = some b) : Solid t := by
  unfold parseStamp at h
  split at h
  · next y0 y1 y2 y3 m0 m1 d0 d1 h0 h1 i0 i1 s0 s1 zone =>
    split_ifs at h with hd
    dsimp only at h
    split_ifs at h
    simp only [Option.map_eq_some_iff, Option.bind_eq_some_iff] at h
    obtain ⟨o, ⟨z, hz, ho⟩, -⟩ := h
    have hzone : Solid zone := zonePart_solid hdigits hz (zoneOffset_solid ho)
    have hdigit : ∀ c ∈ [y0, y1, y2, y3, m0, m1, d0, d1, h0, h1, i0, i1, s0, s1],
        isSpace c = false :=
      fun c hc => isSpace_eq_false_of_isDigit (List.all_eq_true.mp hd c hc)
    have hdash : isSpace '-' = false := by decide
    have hcolon : isSpace ':' = false := by decide
    have ht : isSpace 'T' = false := by decide
    simp only [List.forall_mem_cons] at hdigit
    simp only [Solid, List.forall_mem_cons, hdigit, hdash, hcolon, ht, true_and]
    exact hzone
  · cases h

/-- A time that parses is solid but for a final line feed. -/
theorem parseTime_solid {t : Text} {b : ℤ} (h : parseTime isDecimal t = some b) :
    Solid (chomp t) := parseStamp_solid hdigits h

end Times

/-- A time that update-write writes: that of a filesystem replacement, or one that parses. -/
def IsTime (isDecimal : Char → Bool) (t : Text) : Prop :=
  t = localTime ∨ (parseTime isDecimal t).isSome = true

theorem chomp_cases (t : Text) : t = chomp t ∨ t = chomp t ++ ['\n'] := by
  unfold chomp
  split_ifs with hlast
  · right
    have hne : t ≠ [] := by
      rintro rfl
      cases hlast
    rw [List.getLast?_eq_some_getLast hne] at hlast
    nth_rewrite 1 [← List.dropLast_append_getLast hne]
    rw [Option.some.inj hlast]
  · exact .inl rfl

theorem localTime_solid : Solid localTime := solid_of_all (by decide)

theorem IsTime.solid {isDecimal : Char → Bool} (hdigits : DigitsSolid isDecimal) {t : Text}
    (h : IsTime isDecimal t) : Solid (chomp t) := by
  rcases h with rfl | h
  · exact localTime_solid
  · obtain ⟨b, hb⟩ := Option.isSome_iff_exists.mp h
    exact parseTime_solid hdigits hb

theorem IsTime.strip_eq {isDecimal : Char → Bool} (hdigits : DigitsSolid isDecimal) {t : Text}
    (h : IsTime isDecimal t) : strip t = chomp t :=
  strip_eq_chomp (h.solid hdigits).stripped

theorem IsTime.noTab {isDecimal : Char → Bool} (hdigits : DigitsSolid isDecimal) {t : Text}
    (h : IsTime isDecimal t) : '\t' ∉ t := by
  have hchomp : '\t' ∉ chomp t := (h.solid hdigits).notMem (by decide)
  rcases chomp_cases t with ht | ht <;> rw [ht] <;> simp [hchomp]

theorem ok_bind {ε α β : Type} (a : α) (f : α → Except ε β) : (Except.ok a >>= f) = f a := rfl

/-- Lines that read as the entries, wherever they stand. -/
def Reads (ls : List Text) (es : List LockEntry) : Prop := ∀ n, readLockFrom n ls = .ok es

theorem Reads.nil : Reads [] [] := fun _ => rfl

theorem Reads.cons {l : Text} {ls : List Text} {x : Option LockEntry} {es : List LockEntry}
    (hl : ∀ n, lockLine n l = .ok x) (h : Reads ls es) : Reads (l :: ls) (x.toList ++ es) := by
  intro n
  rw [readLockFrom, hl n, h (n + 1)]
  rfl

theorem Reads.append {a b : List Text} {es fs : List LockEntry} (ha : Reads a es)
    (hb : Reads b fs) : Reads (a ++ b) (es ++ fs) := by
  intro n
  have hstep (ls : List Text) : ∀ n es, readLockFrom n ls = .ok es →
      readLockFrom n (ls ++ b) = .ok (es ++ fs) := by
    induction ls with
    | nil =>
      intro n es h
      cases h
      exact hb n
    | cons l ls ih =>
      intro n es h
      simp only [readLockFrom, except_bind_ok] at h
      obtain ⟨x, hx, es', hes', hes⟩ := h
      cases hes
      rw [List.cons_append, readLockFrom, hx, ok_bind, ih (n + 1) es' hes', List.append_assoc]
      rfl
  exact hstep a n es (ha n)

theorem Reads.flatMap {α : Type} {f : α → List Text} {g : α → LockEntry} {l : List α}
    (h : ∀ a ∈ l, Reads (f a) [g a]) : Reads (l.flatMap f) (l.map g) := by
  induction l with
  | nil => exact Reads.nil
  | cons a l ih =>
    rw [List.flatMap_cons, List.map_cons]
    exact (h a List.mem_cons_self).append (ih fun b hb => h b (List.mem_cons_of_mem a hb))

/-- The lines of the header are comments, each on one line of the file. -/
theorem of_mem_header :
    ∀ l ∈ header, (l.dropWhile isSpace).head? = some '#' ∧ '\n' ∉ l ∧ '\r' ∉ l := by
  -- the characters of a literal stand in it as a list, which is quick to look through
  have hline {t : Text} (h : (t.dropWhile isSpace).head? = some '#' ∧ '\n' ∉ t ∧ '\r' ∉ t) :
      (((String.ofList t).toList).dropWhile isSpace).head? = some '#' ∧
        '\n' ∉ (String.ofList t).toList ∧ '\r' ∉ (String.ofList t).toList := by
    rwa [String.toList_ofList]
  refine List.forall_mem_map.mpr ?_
  rw [List.forall_mem_cons, List.forall_mem_cons, List.forall_mem_cons, List.forall_mem_cons,
    List.forall_mem_singleton]
  exact ⟨hline (by decide), hline (by decide), hline (by decide), hline (by decide),
    hline (by decide)⟩

theorem reads_header : Reads header [] := by
  intro n
  have hline : ∀ l ∈ header, ∀ n, lockLine n l = .ok none := by
    intro l hl n
    rw [lockLine, if_pos (.inr (of_mem_header l hl).1)]
  have hall (ls : List Text) (h : ∀ l ∈ ls, ∀ n, lockLine n l = .ok none) : Reads ls [] := by
    induction ls with
    | nil => exact Reads.nil
    | cons l ls ih =>
      exact Reads.cons (h l List.mem_cons_self) (ih fun m hm => h m (List.mem_cons_of_mem l hm))
  exact hall header hline n

/-- A module line that its line in a lock is cut behind: it starts no comment, and the
separator starts nowhere in it. -/
structure Unhashed (k : Text) : Prop where
  start : k.head? ≠ some '#'
  whole : ¬separator <:+: k ++ [' ']

theorem Unhashed.cut_eq {k : Text} (h : Unhashed k) (t : Text) :
    cut separator (k ++ separator ++ t) = some (k, t) := by
  have hkey : ¬separator <:+: k := fun hin => h.whole (hin.trans (List.prefix_append k _).isInfix)
  rcases cut_entryLine hkey t with hcut | ⟨k', hcut⟩
  · exact hcut
  · -- the key would end in the front of a separator
    obtain ⟨hline, -⟩ := cut_some (by decide) hcut
    have hend : k ++ [' '] ++ ("# ".toList ++ t) = k' ++ separator ++ ("# ".toList ++ t) := by
      simpa [separator] using hline
    exact absurd ⟨k', [], by simp [List.append_cancel_right hend]⟩ h.whole

/-- A module line of a graph. -/
structure IsGraphKey (k : Text) : Prop where
  stripped : Stripped k
  unhashed : Unhashed k
  parsed : ∃ m, parseKey k = some m
  noLineFeed : '\n' ∉ k
  noReturn : '\r' ∉ k

theorem IsGraphKey.ne_nil {k : Text} (h : IsGraphKey k) : k ≠ [] := by
  rintro rfl
  obtain ⟨m, hm⟩ := h.parsed
  revert hm
  decide +revert

/-- The line of a module reads as the module with its time. -/
theorem IsGraphKey.lockLine_eq {k : Text} (h : IsGraphKey k) (t : Text) (n : ℕ) :
    lockLine n (entryLine (k, t)) = .ok (some (k, strip t)) := by
  obtain ⟨c, k', rfl⟩ := List.exists_cons_of_ne_nil h.ne_nil
  have hspace : isSpace c = false := h.stripped.head c (by simp)
  have hline : entryLine (c :: k', t) = c :: (k' ++ separator ++ t) := rfl
  have hdrop : (entryLine (c :: k', t)).dropWhile isSpace = entryLine (c :: k', t) := by
    rw [hline, List.dropWhile_cons_of_neg (by simp [hspace])]
  have hnotskip : ¬(strip (entryLine (c :: k', t)) = [] ∨
      ((entryLine (c :: k', t)).dropWhile isSpace).head? = some '#') := by
    rintro (hnil | hhash)
    · rw [strip, hdrop, List.rdropWhile_eq_nil_iff] at hnil
      have := hnil c (by rw [hline]; simp)
      simp [hspace] at this
    · rw [hdrop, hline] at hhash
      exact h.unhashed.start (by simpa using hhash)
  obtain ⟨m, hm⟩ := h.parsed
  rw [lockLine, if_neg hnotskip, entryLine, h.unhashed.cut_eq t]
  dsimp only
  rw [h.stripped.strip_eq, hm]

theorem lockLine_blank (n : ℕ) : lockLine n [] = .ok none := by
  rw [lockLine, if_pos (.inl (by decide))]

/-- The lines that one entry takes in the file. -/
theorem IsGraphKey.reads {isDecimal : Char → Bool} (hdigits : DigitsSolid isDecimal) {k t : Text}
    (hk : IsGraphKey k) (ht : IsTime isDecimal t) :
    Reads ((entryLine (k, t)).splitOn '\n') [(k, strip t)] := by
  have hsolid := ht.solid hdigits
  have hone : '\n' ∉ entryLine (k, chomp t) := by
    have hfeed : '\n' ∉ chomp t := hsolid.notMem (by decide)
    simp [entryLine, separator, hk.noLineFeed, hfeed]
  have hfirst : ∀ n, lockLine n (entryLine (k, chomp t)) = .ok (some (k, strip t)) := by
    intro n
    rw [hk.lockLine_eq, hsolid.stripped.strip_eq, ht.strip_eq hdigits]
  rcases chomp_cases t with ht' | ht'
  · rw [ht', List.splitOn_eq_singleton hone, ← ht']
    nth_rewrite 1 [ht']
    exact Reads.cons hfirst Reads.nil
  · have hcut : entryLine (k, t) = entryLine (k, chomp t) ++ '\n' :: [] := by
      nth_rewrite 1 [ht']
      simp [entryLine]
    rw [hcut, List.splitOn_append_cons_self_of_not_mem hone, List.splitOn_nil]
    exact Reads.cons hfirst (Reads.cons lockLine_blank Reads.nil)

/-- The file of the entries reads as the entries, their times stripped. -/
theorem readLock_lockText {isDecimal : Char → Bool} (hdigits : DigitsSolid isDecimal)
    {es : List LockEntry} (h : ∀ e ∈ es, IsGraphKey e.1 ∧ IsTime isDecimal e.2) :
    readLock (Lines.fileLines (lockText es)) = .ok (es.map fun e => (e.1, strip e.2)) := by
  have hreturn : ∀ l ∈ header ++ es.map entryLine, '\r' ∉ l := by
    intro l hl
    rcases List.mem_append.mp hl with hl | hl
    · exact (of_mem_header l hl).2.2
    · obtain ⟨e, he, rfl⟩ := List.mem_map.mp hl
      have hkey := (h e he).1.noReturn
      have htime : '\r' ∉ e.2 := by
        have hsolid := (h e he).2.solid hdigits
        have hchomp : '\r' ∉ chomp e.2 := hsolid.notMem (by decide)
        rcases chomp_cases e.2 with ht | ht <;> rw [ht] <;> simp [hchomp]
      simp [entryLine, separator, hkey, htime]
  have hheader : header.flatMap (·.splitOn '\n') = header := by
    have hone : ∀ l ∈ header, l.splitOn '\n' = [l] := fun l hl =>
      List.splitOn_eq_singleton (of_mem_header l hl).2.1
    rw [List.flatMap_congr hone]
    exact List.flatMap_singleton' header
  rw [lockText, fileLines_terminated_flatMap hreturn, List.flatMap_append, hheader,
    List.flatMap_map]
  exact reads_header.append (Reads.flatMap fun e he => (h e he).1.reads hdigits (h e he).2) 1

/-- What an update records for a line of the graph, and whether the line is a new one. -/
inductive Records (w : World) (old : List LockEntry) (k : Text) : Text → Bool → Prop
  | replaced {m : ModuleLine} : parseKey k = some m → m.isLocal = true →
      Records w old k localTime (timeOf old k ≠ some localTime)
  | kept {m : ModuleLine} {tm : Text} : parseKey k = some m → m.isLocal = false →
      timeOf old k = some tm → (parseTime w.isDecimal tm).isSome = true →
      Records w old k tm false
  | fetched {m : ModuleLine} {tm : Text} : parseKey k = some m → m.isLocal = false →
      (∀ t, timeOf old k = some t → parseTime w.isDecimal t = none) →
      w.proxy m.effectivePath m.effectiveVersion = some tm →
      (parseTime w.isDecimal tm).isSome = true → Records w old k tm true

theorem Records.parsed {w : World} {old : List LockEntry} {k t : Text} {b : Bool}
    (h : Records w old k t b) : ∃ m, parseKey k = some m := by
  cases h with
  | replaced hm _ => exact ⟨_, hm⟩
  | kept hm _ _ _ => exact ⟨_, hm⟩
  | fetched hm _ _ _ _ => exact ⟨_, hm⟩

theorem Records.isTime {w : World} {old : List LockEntry} {k t : Text} {b : Bool}
    (h : Records w old k t b) : IsTime w.isDecimal t := by
  cases h with
  | replaced _ _ => exact .inl rfl
  | kept _ _ _ ht => exact .inr ht
  | fetched _ _ _ _ ht => exact .inr ht

theorem IsTime.parseTime_strip {isDecimal : Char → Bool} {t : Text}
    (h : (parseTime isDecimal t).isSome = true) :
    parseTime isDecimal (strip t) = parseTime isDecimal t := by
  obtain ⟨b, hb⟩ := Option.isSome_iff_exists.mp h
  obtain ⟨hstrip, -, hparse⟩ := Deps.parseTime_strip hb
  rw [hstrip, hparse, hb]

/-- What reads back for a line. -/
theorem Records.read {w : World} {old : List LockEntry} {k t : Text} {b : Bool}
    (h : Records w old k t b) : ∃ m, parseKey k = some m ∧
      if m.isLocal then strip t = localTime
      else (parseTime w.isDecimal (strip t)).isSome = true := by
  cases h with
  | @replaced m hm hl =>
    refine ⟨m, hm, ?_⟩
    rw [if_pos hl]
    decide
  | @kept m _ hm hl _ ht =>
    refine ⟨m, hm, ?_⟩
    rw [if_neg (by simp [hl]), IsTime.parseTime_strip ht]
    exact ht
  | @fetched m _ hm hl _ _ ht =>
    refine ⟨m, hm, ?_⟩
    rw [if_neg (by simp [hl]), IsTime.parseTime_strip ht]
    exact ht

/-- The next run keeps what is recorded, whatever its proxy would answer. -/
theorem Records.again {w w' : World} {old new : List LockEntry} {k t : Text} {b : Bool}
    (h : Records w old k t b) (hdec : w'.isDecimal = w.isDecimal)
    (hnew : timeOf new k = some (strip t)) : Records w' new k (strip t) false := by
  obtain ⟨m, hm, hread⟩ := h.read
  split_ifs at hread with hl
  · rw [hread] at hnew ⊢
    have hrec := @Records.replaced w' new k m hm hl
    rwa [hnew, decide_eq_false (by simp)] at hrec
  · exact .kept hm (by simpa using hl) hnew (by rw [hdec]; exact hread)

/-- What is recorded for a line is determined. -/
theorem Records.unique {w : World} {old : List LockEntry} {k t t' : Text} {b b' : Bool}
    (h : Records w old k t b) (h' : Records w old k t' b') : t = t' ∧ b = b' := by
  have hkind {m m' : ModuleLine} (hm : parseKey k = some m) (hm' : parseKey k = some m')
      (hl : m.isLocal = true) (hl' : m'.isLocal = false) : False := by
    rw [hm] at hm'
    cases hm'
    simp [hl] at hl'
  cases h with
  | replaced hm hl =>
    cases h' with
    | replaced _ _ => exact ⟨rfl, rfl⟩
    | kept hm' hl' _ _ => exact (hkind hm hm' hl hl').elim
    | fetched hm' hl' _ _ _ => exact (hkind hm hm' hl hl').elim
  | kept hm hl hold ht =>
    cases h' with
    | replaced hm' hl' => exact (hkind hm' hm hl' hl).elim
    | kept _ _ hold' _ => exact ⟨Option.some.inj (hold.symm.trans hold'), rfl⟩
    | fetched _ _ hnone _ _ => simp [hnone _ hold] at ht
  | fetched hm hl hnone hp ht =>
    cases h' with
    | replaced hm' hl' => exact (hkind hm' hm hl' hl).elim
    | kept _ _ hold' ht' => simp [hnone _ hold'] at ht'
    | fetched hm' _ _ hp' _ =>
      rw [hm] at hm'
      cases hm'
      exact ⟨Option.some.inj (hp.symm.trans hp'), rfl⟩

/-- A line that is planned and written. -/
theorem records_of_writeLine {w : World} {old : List LockEntry} {k : Text} {l : UpdateLine}
    {e : LockEntry × Bool} (hplan : planUpdate w.isDecimal old k = .ok l)
    (hwrite : writeLine w l = .ok e) : e.1.1 = k ∧ Records w old k e.1.2 e.2 ∧ '\t' ∉ k := by
  unfold planUpdate at hplan
  cases hm : parseKey k with
  | none => simp [hm] at hplan
  | some m =>
    simp only [hm] at hplan
    by_cases hlocal : m.isLocal = true
    · rw [if_pos hlocal] at hplan
      cases hplan
      simp only [writeLine] at hwrite
      split_ifs at hwrite with htab
      cases hwrite
      exact ⟨rfl, .replaced hm hlocal, fun h => htab (.inl h)⟩
    · rw [if_neg hlocal] at hplan
      rw [Bool.not_eq_true] at hlocal
      cases hold : (timeOf old k).filter (fun tm => (parseTime w.isDecimal tm).isSome) with
      | some tm =>
        simp only [hold] at hplan
        cases hplan
        simp only [writeLine] at hwrite
        split_ifs at hwrite with htab
        cases hwrite
        obtain ⟨htime, hparse⟩ := Option.filter_eq_some_iff.mp hold
        exact ⟨rfl, .kept hm hlocal htime hparse, fun h => htab (.inl h)⟩
      | none =>
        simp only [hold] at hplan
        cases hplan
        simp only [writeLine] at hwrite
        cases hp : w.proxy m.effectivePath m.effectiveVersion with
        | none => simp [hp] at hwrite
        | some tm =>
          simp only [hp] at hwrite
          split_ifs at hwrite with htab htime
          cases hwrite
          refine ⟨rfl, .fetched hm hlocal (fun t ht => ?_) hp ?_, htab⟩
          · simpa using Option.filter_eq_none_iff.mp hold t ht
          · rwa [Bool.not_eq_true, Option.isNone_eq_false_iff] at htime

/-- A line whose record is known is planned and written with it. -/
theorem Records.writeLine_eq {w : World} (hdigits : DigitsSolid w.isDecimal)
    {old : List LockEntry} {k t : Text} {b : Bool} (h : Records w old k t b) (htab : '\t' ∉ k) :
    ∃ l, planUpdate w.isDecimal old k = .ok l ∧ writeLine w l = .ok ((k, t), b) := by
  have htime : '\t' ∉ t := h.isTime.noTab hdigits
  cases h with
  | replaced hm hl =>
    refine ⟨⟨k, .known localTime, timeOf old k ≠ some localTime⟩, by simp [planUpdate, hm, hl], ?_⟩
    simp [writeLine, htab, htime]
  | kept hm hl htm hparse =>
    have hfilter : (timeOf old k).filter (fun tm => (parseTime w.isDecimal tm).isSome) =
        some t := Option.filter_eq_some_iff.mpr ⟨htm, hparse⟩
    refine ⟨⟨k, .known t, false⟩, by simp [planUpdate, hm, hl, hfilter], ?_⟩
    simp [writeLine, htab, htime]
  | @fetched m _ hm hl hnone hp hparse =>
    have hfilter : (timeOf old k).filter (fun tm => (parseTime w.isDecimal tm).isSome) = none := by
      rw [Option.filter_eq_none_iff]
      intro t ht
      simp [hnone t ht]
    refine ⟨⟨k, .fetch m.effectivePath m.effectiveVersion, true⟩, ?_, ?_⟩
    · simp [planUpdate, hm, hl, hfilter]
    · have hsome : parseTime w.isDecimal t ≠ none := Option.isSome_iff_ne_none.mp hparse
      simp [writeLine, hp, htab, hsome]

theorem mapM_eq_ok {ε α β : Type} {f : α → Except ε β} {l : List α} {bs : List β} :
    l.mapM f = .ok bs ↔ List.Forall₂ (fun a b => f a = .ok b) l bs := by
  induction l generalizing bs with
  | nil =>
    rw [List.mapM_nil, List.forall₂_nil_left_iff]
    exact ⟨fun h => (Except.ok.inj h).symm, fun h => by rw [h]; rfl⟩
  | cons a l ih =>
    simp only [List.mapM_cons, except_bind_ok, ih]
    constructor
    · rintro ⟨b, hb, bs', hbs', hbs⟩
      cases hbs
      exact .cons hb hbs'
    · intro h
      cases h with
      | cons hb hbs' => exact ⟨_, hb, _, hbs', rfl⟩

/-- Two passes over a list, line by line. -/
theorem exists_forall₂_iff {α β γ : Type} {R : α → β → Prop} {S : β → γ → Prop} {l : List α}
    {n : List γ} : (∃ m, List.Forall₂ R l m ∧ List.Forall₂ S m n) ↔
      List.Forall₂ (fun a c => ∃ b, R a b ∧ S b c) l n := by
  induction l generalizing n with
  | nil =>
    rw [List.forall₂_nil_left_iff]
    constructor
    · rintro ⟨m, hm, hn⟩
      rw [List.forall₂_nil_left_iff] at hm
      subst hm
      exact List.forall₂_nil_left_iff.mp hn
    · rintro rfl
      exact ⟨[], .nil, .nil⟩
  | cons a l ih =>
    constructor
    · rintro ⟨m, hm, hn⟩
      cases hm with
      | cons hR hm =>
        cases hn with
        | cons hS hn => exact .cons ⟨_, hR, hS⟩ (ih.mp ⟨_, hm, hn⟩)
    · intro h
      cases h with
      | cons hRS h =>
        obtain ⟨b, hR, hS⟩ := hRS
        obtain ⟨m, hm, hn⟩ := ih.mpr h
        exact ⟨b :: m, .cons hR hm, .cons hS hn⟩

/-- What a line of the graph and what is written for it have to do with each other. -/
def Writes (w : World) (old : List LockEntry) (k : Text) (e : LockEntry × Bool) : Prop :=
  e.1.1 = k ∧ Records w old k e.1.2 e.2 ∧ '\t' ∉ k

/-- The module lines of a graph file. -/
def graphKeys (graphFile : Text) : List Text := readGraph (Lines.fileLines graphFile)

/-- The files written for what is recorded. -/
def Updated.of (written : List (LockEntry × Bool)) : Updated :=
  ⟨lockText (written.map Prod.fst), lockText ((written.filter Prod.snd).map Prod.fst)⟩

section Update

variable {w : World} (hdigits : DigitsSolid w.isDecimal) {lockFile : Option Text}
  {graphFile : Text}

/-- An update that succeeds writes what is recorded for each line of the graph. -/
theorem writes_of_updateLock {u : Updated} (h : updateLock w lockFile graphFile = .ok u) :
    ∃ written, List.Forall₂ (Writes w (oldEntries lockFile)) (graphKeys graphFile) written ∧
      u = .of written := by
  simp only [updateLock, except_bind_ok, mapM_eq_ok] at h
  obtain ⟨plan, hplan, written, hwritten, hu⟩ := h
  refine ⟨written, ?_, (Except.ok.inj hu).symm⟩
  refine (exists_forall₂_iff.mp ⟨plan, hplan, hwritten⟩).imp ?_
  rintro k e ⟨l, hl, he⟩
  exact records_of_writeLine hl he

include hdigits in
theorem updateLock_of_writes {written : List (LockEntry × Bool)}
    (h : List.Forall₂ (Writes w (oldEntries lockFile)) (graphKeys graphFile) written) :
    updateLock w lockFile graphFile = .ok (.of written) := by
  have hboth : List.Forall₂
      (fun k e => ∃ l, planUpdate w.isDecimal (oldEntries lockFile) k = .ok l ∧
        writeLine w l = .ok e) (graphKeys graphFile) written := by
    refine h.imp ?_
    rintro k ⟨⟨k', t⟩, b⟩ ⟨rfl, hrec, htab⟩
    exact hrec.writeLine_eq hdigits htab
  obtain ⟨plan, hplan, hwritten⟩ := exists_forall₂_iff.mpr hboth
  simp only [updateLock, except_bind_ok, mapM_eq_ok]
  exact ⟨plan, hplan, written, hwritten, rfl⟩

theorem isGraphKey_of_mem {k : Text} (hgraph : ∀ k ∈ graphKeys graphFile, Unhashed k)
    (hk : k ∈ graphKeys graphFile) (hparsed : ∃ m, parseKey k = some m) : IsGraphKey k := by
  have hunhashed := hgraph k hk
  obtain ⟨hmem, -⟩ := List.mem_filter.mp hk
  obtain ⟨l, hl, rfl⟩ := List.mem_map.mp hmem
  have hsub : strip l ⊆ l := fun c hc =>
    (List.dropWhile_suffix isSpace).subset ((List.rdropWhile_prefix isSpace _).subset hc)
  exact ⟨strip_stripped l, hunhashed, hparsed,
    fun h => (of_mem_fileLines hl (hsub h)).2.1 rfl,
    fun h => (of_mem_fileLines hl (hsub h)).2.2 rfl⟩

/-- The entries of what is written, as they read back. -/
def readBack (written : List (LockEntry × Bool)) : List LockEntry :=
  written.map (fun e => (e.1.1, strip e.1.2))

theorem exists_of_mem_written {old : List LockEntry} {ks : List Text}
    {written : List (LockEntry × Bool)} (h : List.Forall₂ (Writes w old) ks written)
    {e : LockEntry × Bool} (he : e ∈ written) : e.1.1 ∈ ks ∧ Writes w old e.1.1 e := by
  induction h with
  | nil => exact absurd he List.not_mem_nil
  | cons hw _ ih =>
    rcases List.mem_cons.mp he with rfl | he
    · exact ⟨by simp [hw.1], hw.1.symm ▸ hw⟩
    · exact ⟨List.mem_cons_of_mem _ (ih he).1, (ih he).2⟩

include hdigits in
/-- Any part of what is written reads back. -/
theorem readLock_written {old : List LockEntry} (hgraph : ∀ k ∈ graphKeys graphFile, Unhashed k)
    {written part : List (LockEntry × Bool)}
    (h : List.Forall₂ (Writes w old) (graphKeys graphFile) written) (hpart : part ⊆ written) :
    readLock (Lines.fileLines (lockText (part.map Prod.fst))) = .ok (readBack part) := by
  rw [readLock_lockText hdigits, readBack, List.map_map]
  · rfl
  · intro e he
    obtain ⟨x, hx, rfl⟩ := List.mem_map.mp he
    obtain ⟨hmem, -, hrec, -⟩ := exists_of_mem_written h (hpart hx)
    exact ⟨isGraphKey_of_mem hgraph hmem hrec.parsed, hrec.isTime⟩

/-- The keys of what is written are those of the graph. -/
theorem readBack_keys {old : List LockEntry} {ks : List Text} {written : List (LockEntry × Bool)}
    (h : List.Forall₂ (Writes w old) ks written) : (readBack written).map Prod.fst = ks := by
  induction h with
  | nil => rfl
  | cons hw _ ih =>
    rw [readBack, List.map_cons, List.map_cons, hw.1]
    exact congrArg _ ih

theorem timeOf_mem {es : List LockEntry} {k t : Text} (h : timeOf es k = some t) :
    (k, t) ∈ es := by
  obtain ⟨e, he, rfl⟩ := Option.map_eq_some_iff.mp h
  obtain ⟨hmem, hkey⟩ := List.mem_filter.mp (List.mem_of_getLast? he)
  rw [decide_eq_true_eq] at hkey
  rwa [← hkey]

theorem exists_timeOf {es : List LockEntry} {k : Text} (h : k ∈ es.map Prod.fst) :
    ∃ t, timeOf es k = some t := by
  obtain ⟨e, he, rfl⟩ := List.mem_map.mp h
  have hne : es.filter (fun x => x.1 = e.1) ≠ [] :=
    List.ne_nil_of_mem (List.mem_filter.mpr ⟨he, by simp⟩)
  exact ⟨_, by rw [timeOf, List.getLast?_eq_some_getLast hne]; rfl⟩

/-- The time of a line of the graph is the one recorded for it. -/
theorem timeOf_readBack {old : List LockEntry} {ks : List Text}
    {written : List (LockEntry × Bool)} (h : List.Forall₂ (Writes w old) ks written) {k : Text}
    (hk : k ∈ ks) : ∃ t b, Records w old k t b ∧ timeOf (readBack written) k = some (strip t) := by
  obtain ⟨t', ht'⟩ := exists_timeOf (by rwa [readBack_keys h] : k ∈ (readBack written).map Prod.fst)
  obtain ⟨e, he, heq⟩ := List.mem_map.mp (timeOf_mem ht')
  obtain ⟨rfl, rfl⟩ := Prod.mk.inj heq
  obtain ⟨-, -, hrec, -⟩ := exists_of_mem_written h he
  exact ⟨e.1.2, e.2, hrec, ht'⟩

end Update

theorem strip_rdropWhile (l : Text) : strip (l.rdropWhile isSpace) = strip l := by
  induction l using List.reverseRecOn with
  | nil => rfl
  | append_singleton l c ih =>
    by_cases hc : isSpace c = true
    · rw [List.rdropWhile_concat_pos _ _ _ hc, ih, strip_concat hc]
    · rw [List.rdropWhile_concat_neg _ _ _ hc]

/-- What `go list` prints: no line starts with a blank or as a comment, and none holds what
stands in front of the time in a lock. -/
structure IsGoList (goList : Text) : Prop where
  unhashed : ∀ l ∈ Lines.fileLines goList, Unhashed (strip l)
  flush : ∀ l ∈ Lines.fileLines goList, ∀ c ∈ l.head?, isSpace c = false

theorem mem_graphClean {ls : List Text} {l : Text} :
    l ∈ graphClean ls ↔ ∃ m ∈ ls, strip m ≠ [] ∧ l = m.rdropWhile isSpace := by
  simp only [graphClean, List.mem_mergeSort, List.mem_dedup, List.mem_map, List.mem_filter,
    decide_eq_true_eq]
  constructor
  · rintro ⟨m, ⟨hm, hne⟩, rfl⟩
    exact ⟨m, hm, hne, rfl⟩
  · rintro ⟨m, hm, hne, rfl⟩
    exact ⟨m, ⟨hm, hne⟩, rfl⟩

theorem fileLines_currentGraph (goList : Text) :
    Lines.fileLines (currentGraph goList) = graphClean (Lines.fileLines goList) := by
  refine Lines.fileLines_terminated fun l hl => ?_
  obtain ⟨m, hm, -, rfl⟩ := mem_graphClean.mp hl
  have hsub : m.rdropWhile isSpace ⊆ m := (List.rdropWhile_prefix isSpace m).subset
  exact ⟨fun h => (of_mem_fileLines hm (hsub h)).2.1 rfl,
    fun h => (of_mem_fileLines hm (hsub h)).2.2 rfl⟩

/-- The module lines of a graph are lines of the list. -/
theorem exists_of_mem_graphKeys {goList k : Text} (h : k ∈ graphKeys (currentGraph goList)) :
    ∃ l ∈ Lines.fileLines goList, k = strip l := by
  obtain ⟨hmem, -⟩ := List.mem_filter.mp h
  rw [fileLines_currentGraph] at hmem
  obtain ⟨l, hl, rfl⟩ := List.mem_map.mp hmem
  obtain ⟨m, hm, -, rfl⟩ := mem_graphClean.mp hl
  exact ⟨m, hm, strip_rdropWhile m⟩

theorem unhashed_graphKeys {goList : Text}
    (h : ∀ l ∈ Lines.fileLines goList, Unhashed (strip l)) :
    ∀ k ∈ graphKeys (currentGraph goList), Unhashed k := by
  intro k hk
  obtain ⟨l, hl, rfl⟩ := exists_of_mem_graphKeys hk
  exact h l hl

/-- The module lines are the lines that `go list` prints. -/
theorem IsGoList.graphKeys_eq {goList : Text} (h : IsGoList goList) :
    graphKeys (currentGraph goList) = graphClean (Lines.fileLines goList) := by
  have hstrip : ∀ l ∈ graphClean (Lines.fileLines goList), strip l = l ∧ l ≠ [] := by
    intro l hl
    obtain ⟨m, hm, hne, rfl⟩ := mem_graphClean.mp hl
    have hfront : m.dropWhile isSpace = m := by
      cases m with
      | nil => rfl
      | cons c m => exact List.dropWhile_cons_of_neg (by simp [h.flush _ hm c (by simp)])
    have heq : strip m = m.rdropWhile isSpace := by rw [strip, hfront]
    rw [← heq]
    exact ⟨(strip_stripped m).strip_eq, hne⟩
  have hmap : (graphClean (Lines.fileLines goList)).map strip =
      graphClean (Lines.fileLines goList) := by
    refine (List.map_congr_left fun l hl => (hstrip l hl).1).trans (List.map_id' _)
  rw [graphKeys, readGraph, fileLines_currentGraph, hmap, List.filter_eq_self]
  exact fun l hl => by simpa using (hstrip l hl).2

theorem IsGoList.nodup {goList : Text} (h : IsGoList goList) :
    (graphKeys (currentGraph goList)).Nodup := by
  rw [h.graphKeys_eq]
  exact (List.mergeSort_perm _ _).nodup_iff.mpr (List.nodup_dedup _)

/-- The new lock reads back: a line for every line of the graph, with what is recorded. -/
theorem updateLock_reads {w : World} (hdigits : DigitsSolid w.isDecimal)
    {lockFile : Option Text} {goList : Text}
    (hlist : ∀ l ∈ Lines.fileLines goList, Unhashed (strip l)) {u : Updated}
    (h : updateLock w lockFile (currentGraph goList) = .ok u) :
    ∃ es, readLock (Lines.fileLines u.lock) = .ok es ∧
      es.map Prod.fst = graphKeys (currentGraph goList) ∧
      ∀ e ∈ es, IsGraphKey e.1 ∧ '\t' ∉ e.1 ∧
        ∃ t b, Records w (oldEntries lockFile) e.1 t b ∧ e.2 = strip t := by
  have hgraph := unhashed_graphKeys hlist
  obtain ⟨written, hwritten, rfl⟩ := writes_of_updateLock h
  refine ⟨readBack written, ?_, readBack_keys hwritten, fun e he => ?_⟩
  · exact readLock_written hdigits hgraph hwritten (List.Subset.refl written)
  · obtain ⟨x, hx, rfl⟩ := List.mem_map.mp he
    obtain ⟨hmem, -, hrec, htab⟩ := exists_of_mem_written hwritten hx
    exact ⟨isGraphKey_of_mem hgraph hmem hrec.parsed, htab, x.1.2, x.2, hrec, rfl⟩

theorem oldEntries_eq {lock : Text} {es : List LockEntry}
    (h : readLock (Lines.fileLines lock) = .ok es) : oldEntries (some lock) = es := by
  simp only [oldEntries, baseEntries, Option.map_some, h]

section Update

variable {w : World} (hdigits : DigitsSolid w.isDecimal) {lockFile : Option Text}
  {goList : Text} (hlist : IsGoList goList)

include hdigits hlist

/-- After an update the lock has just the lines of the graph, whatever the lock file held
before: lockdiff exits 0, and every line has the time of a filesystem replacement or one
that parses. -/
theorem update_locks_graph {u : Updated} (h : updateLock w lockFile (currentGraph goList) = .ok u) :
    lockdiff (some (Lines.fileLines u.lock)) (Lines.fileLines (currentGraph goList)) = 0 ∧
      ∃ es, readLock (Lines.fileLines u.lock) = .ok es ∧
        es.map Prod.fst = graphKeys (currentGraph goList) ∧
        ∀ e ∈ es, ∃ m, parseKey e.1 = some m ∧
          if m.isLocal then e.2 = localTime else (parseTime w.isDecimal e.2).isSome = true := by
  obtain ⟨es, hes, hkeys, hrec⟩ := updateLock_reads hdigits hlist.unhashed h
  refine ⟨(lockdiff_eq_zero hes).mpr ?_, es, hes, hkeys, fun e he => ?_⟩
  · rw [hkeys]
    exact drift_eq_nil.mpr ⟨fun k => Iff.rfl, hlist.nodup⟩
  · obtain ⟨-, -, t, b, hr, ht⟩ := hrec e he
    rw [ht]
    exact hr.read

/-- A second update of the same graph records the same, and nothing is new. -/
theorem updateLock_again {u : Updated} (h : updateLock w lockFile (currentGraph goList) = .ok u)
    {w' : World} (hdec : w'.isDecimal = w.isDecimal) :
    ∃ es, readLock (Lines.fileLines u.lock) = .ok es ∧
      updateLock w' (some u.lock) (currentGraph goList) = .ok ⟨lockText es, lockText []⟩ ∧
      readLock (Lines.fileLines (lockText es)) = .ok es := by
  obtain ⟨written, hwritten, rfl⟩ := writes_of_updateLock h
  have hread : readLock (Lines.fileLines (Updated.of written).lock) = .ok (readBack written) :=
    readLock_written hdigits (unhashed_graphKeys hlist.unhashed) hwritten (List.Subset.refl written)
  -- what the second run writes: the entries as the first run's lock has them
  let again : List (LockEntry × Bool) := written.map fun e => ((e.1.1, strip e.1.2), false)
  have hagain : List.Forall₂ (Writes w' (oldEntries (some (Updated.of written).lock)))
      (graphKeys (currentGraph goList)) again := by
    rw [oldEntries_eq hread]
    refine List.forall₂_map_right_iff.mpr ?_
    refine ((List.forall₂_and_left _ _).mpr ⟨fun k hk => hk, hwritten⟩).imp ?_
    rintro k e ⟨hk, rfl, hrec, htab⟩
    refine ⟨rfl, ?_, htab⟩
    obtain ⟨t, b, hrec', ht⟩ := timeOf_readBack hwritten hk
    obtain ⟨rfl, rfl⟩ := hrec.unique hrec'
    exact hrec.again hdec ht
  have hnone : again.filter Prod.snd = [] := by simp [again, List.filter_map]
  have hfst : again.map Prod.fst = readBack written := by simp [again, readBack]
  have hof : Updated.of again = ⟨lockText (readBack written), lockText []⟩ := by
    rw [Updated.of, hnone, hfst, List.map_nil]
  have hupdate := updateLock_of_writes (hdec ▸ hdigits) hagain
  rw [hof] at hupdate
  refine ⟨readBack written, hread, hupdate, ?_⟩
  have hreadAgain := readLock_written (hdec ▸ hdigits) (unhashed_graphKeys hlist.unhashed) hagain
    (List.Subset.refl again)
  rw [hfst] at hreadAgain
  rw [hreadAgain]
  simp only [readBack, again, List.map_map, Except.ok.injEq]
  refine List.map_congr_left fun e _ => ?_
  simp [(strip_stripped e.1.2).strip_eq]

end Update

/-- With no new line there is nothing to check. -/
theorem checkLines_of_empty (w : World) (g : Grep) (srv : Server) {exemptFile : List Text}
    {exempt : List (Text × Text)} (h : readExempt 1 exemptFile = .ok exempt) {file : Text}
    (hread : readLock (Lines.fileLines file) = .ok []) :
    checkLines w g srv exemptFile file = .ok () := by
  have hcool : cooldown w exemptFile (Lines.fileLines file) = .ok () := by
    simp only [cooldown, hread, h]
    rfl
  have hosv : maliciousCheck g srv osvBatchSize (Lines.fileLines file) = .ok .start := by
    simp only [maliciousCheck, hread]
    rfl
  simp only [checkLines, hcool, hosv]

/-- A run that has written its lock, even if the checks of the new lines refused it, is green
when it is made again: whatever the proxy and the advisory server answer then and however
young a version is, the second run takes every line as it stands, checks no line, and leaves
a lock that reads the same and that further runs do not change. -/
theorem update_again {w : World} (hdigits : DigitsSolid w.isDecimal) {goList : Text}
    (hlist : IsGoList goList) {lockFile : Option Text} {u : Updated}
    (h : updateLock w lockFile (currentGraph goList) = .ok u) (r : UpdateRun)
    (hdec : r.world.isDecimal = w.isDecimal) (hsame : r.goList = goList)
    (hexempt : ∃ exempt, readExempt 1 r.exempt = .ok exempt) :
    r.verdict (some u.lock) = .ok () ∧
      ∃ lock, r.after (some u.lock) = some lock ∧ r.after (some lock) = some lock ∧
        readLock (Lines.fileLines lock) = readLock (Lines.fileLines u.lock) := by
  subst hsame
  obtain ⟨exempt, hexempt⟩ := hexempt
  obtain ⟨es, hes, hagain, hread⟩ := updateLock_again hdigits hlist h hdec
  obtain ⟨es', hes', hthird, -⟩ := updateLock_again (hdec ▸ hdigits) hlist hagain rfl
  rw [hread] at hes'
  cases hes'
  refine ⟨?_, lockText es, ?_, ?_, hread.trans hes.symm⟩
  · have hnone : readLock (Lines.fileLines (lockText [])) = .ok [] :=
      readLock_lockText hdigits (List.forall_mem_nil _)
    rw [UpdateRun.verdict, hagain, ok_bind]
    exact checkLines_of_empty r.world r.grep r.server hexempt hnone
  · rw [UpdateRun.after, hagain]
  · rw [UpdateRun.after, hthird]

theorem unescape_cons {upper : Char → Text} {c : Char} (h : c ≠ '!') (t : Text) :
    unescape upper (c :: t) = c :: unescape upper t := by
  rw [unescape]
  exact fun _ _ hc _ => h hc

/-- A path or version without an exclamation mark is read back from its escaped form, for
any `str.upper` that has the ASCII letters right. -/
theorem unescape_escape {upper : Char → Text}
    (hupper : ∀ c : Char, c.isUpper = true → upper c.toLower = [c]) {t : Text} (h : '!' ∉ t) :
    unescape upper (escape t) = t := by
  induction t with
  | nil => rfl
  | cons c t ih =>
    rw [List.mem_cons, not_or] at h
    rw [escape, List.flatMap_cons, escapeChar]
    split_ifs with hc
    · rw [List.cons_append, List.singleton_append, unescape, hupper c hc, List.singleton_append]
      exact congrArg _ (ih h.2)
    · rw [List.singleton_append, unescape_cons (Ne.symm h.1)]
      exact congrArg _ (ih h.2)

theorem toLower_of_isUpper {c : Char} (h : c.isUpper = true) :
    c.toLower.toUpper = c ∧ c.toLower.isUpper = false := by
  have hrange : 65 ≤ c.toNat ∧ c.toNat ≤ 90 := by
    have hval : c.val ≥ 'A'.val ∧ c.val ≤ 'Z'.val := of_decide_eq_true h
    exact ⟨UInt32.le_iff_toNat_le.mp hval.1, UInt32.le_iff_toNat_le.mp hval.2⟩
  obtain ⟨n, hn⟩ : ∃ n, n = c.toNat := ⟨_, rfl⟩
  have hc : c = Char.ofNat n := by rw [hn, Char.ofNat_toNat]
  rw [← hn] at hrange
  subst hc
  obtain ⟨hlo, hhi⟩ := hrange
  clear h hn
  interval_cases n <;> exact ⟨rfl, rfl⟩

theorem toLower_of_not_isUpper {c : Char} (h : ¬c.isUpper = true) : c.toLower = c := by
  have hval : ¬(c.val ≥ 'A'.val ∧ c.val ≤ 'Z'.val) := fun hc => h (decide_eq_true hc)
  exact dif_neg hval

theorem escape_injective {s t : Text} (hs : '!' ∉ s) (ht : '!' ∉ t) (h : escape s = escape t) :
    s = t := by
  have hback {t : Text} (ht : '!' ∉ t) : unescape (fun c => [c.toUpper]) (escape t) = t :=
    unescape_escape (fun c hc => by rw [(toLower_of_isUpper hc).1]) ht
  rw [← hback hs, h, hback ht]

/-- The last slash of a text tells what stands before it and behind it. -/
theorem append_slash_inj {a b c d : Text} (hb : '/' ∉ b) (hd : '/' ∉ d)
    (h : a ++ '/' :: b = c ++ '/' :: d) : a = c ∧ b = d := by
  rcases List.append_eq_append_iff.mp h with ⟨e, rfl, he⟩ | ⟨e, rfl, he⟩
  · cases e with
    | nil => exact ⟨by simp, by simpa using he⟩
    | cons x e =>
      obtain ⟨-, rfl⟩ := List.cons.inj he
      simp at hb
  · cases e with
    | nil => exact ⟨by simp, by simpa using he.symm⟩
    | cons x e =>
      obtain ⟨-, rfl⟩ := List.cons.inj he
      simp at hd

theorem noSlash_escape {v : Text} (h : '/' ∉ v) : '/' ∉ escape v ++ ".info".toList := by
  intro hmem
  rcases List.mem_append.mp hmem with hmem | hmem
  · obtain ⟨c, hc, hin⟩ := List.mem_flatMap.mp hmem
    unfold escapeChar at hin
    split_ifs at hin with hup
    · have hlow : c.toLower = '/' := by simpa [eq_comm] using hin
      have hback := (toLower_of_isUpper hup).1
      rw [hlow] at hback
      subst hback
      exact absurd hup (by decide)
    · exact h (by rwa [List.mem_singleton.mp hin])
  · exact absurd hmem (by decide)

/-- An escaped text has no upper case. -/
theorem map_toLower_escape (t : Text) : (escape t).map Char.toLower = escape t := by
  have hchar (c : Char) : (escapeChar c).map Char.toLower = escapeChar c := by
    unfold escapeChar
    split_ifs with hc
    · have hlow : c.toLower.toLower = c.toLower :=
        toLower_of_not_isUpper (by simp [(toLower_of_isUpper hc).2])
      have hmark : Char.toLower '!' = '!' := rfl
      rw [List.map_cons, List.map_singleton, hmark, hlow]
    · rw [List.map_singleton, toLower_of_not_isUpper hc]
  rw [escape, List.map_flatMap]
  exact congrArg (fun f => t.flatMap f) (funext hchar)

/-- Two module versions never share a file of the proxy, even where it does not tell upper and
lower case apart. -/
theorem infoUrl_injective {proxy p p' v v' : Text} (hp : '!' ∉ p) (hp' : '!' ∉ p') (hv : '!' ∉ v)
    (hv' : '!' ∉ v') (hslash : '/' ∉ v) (hslash' : '/' ∉ v')
    (h : (infoUrl proxy p v).map Char.toLower = (infoUrl proxy p' v').map Char.toLower) :
    p = p' ∧ v = v' := by
  have hcut (p v : Text) : (infoUrl proxy p v).map Char.toLower =
      proxy.map Char.toLower ++
        ('/' :: ((escape p ++ "/@v".toList) ++ '/' :: (escape v ++ ".info".toList))) := by
    simp [infoUrl, map_toLower_escape]
  rw [hcut, hcut] at h
  obtain ⟨hpath, hversion⟩ := append_slash_inj (noSlash_escape hslash) (noSlash_escape hslash')
    (List.cons.inj (List.append_cancel_left h)).2
  exact ⟨escape_injective hp hp' (List.append_cancel_right hpath),
    escape_injective hv hv' (List.append_cancel_right hversion)⟩

/-- What `go list` prints for a dependency, and a replacement by a directory with a hash sign
in its name. -/
def depList : Text :=
  "k3sm.io/dep v1.0.0\nk3sm.io/local v0.1.0 => ../local#1 \n".toList

def depKeys : List Text :=
  ["k3sm.io/dep v1.0.0".toList, "k3sm.io/local v0.1.0 => ../local#1".toList]

def depEntry : LockEntry := ("k3sm.io/dep v1.0.0".toList, "2026-11-10T00:00:00Z".toList)

def localEntry : LockEntry := ("k3sm.io/local v0.1.0 => ../local#1".toList, localTime)

def depUpdated : Updated :=
  ⟨lockText [depEntry, localEntry], lockText [depEntry, localEntry]⟩

/-- An advisory server that knows nothing. -/
def quietServer : Server where
  batch qs := .data (qs.map (fun _ => some ⟨[], []⟩))
  query _ _ := .data ⟨[], []⟩

/-- Six days after the dependency's time. -/
def depRun : UpdateRun := ⟨youngWorld, gnuGrep, quietServer, depList, []⟩

theorem isDigit_solid : DigitsSolid Char.isDigit := fun _ h => isSpace_eq_false_of_isDigit h

theorem depList_isGoList : IsGoList depList := by
  have hlines : Lines.fileLines depList = ["k3sm.io/dep v1.0.0".toList,
      "k3sm.io/local v0.1.0 => ../local#1 ".toList] := by decide
  refine ⟨fun l hl => ?_, fun l hl c hc => ?_⟩
  · rw [hlines, List.mem_pair] at hl
    rcases hl with rfl | rfl
    · exact ⟨by decide, by decide⟩
    · exact ⟨by decide, by decide⟩
  · obtain rfl : 'k' = c := by
      rw [hlines, List.mem_pair] at hl
      rcases hl with rfl | rfl <;> simpa using hc
    decide

theorem currentGraph_depList : currentGraph depList = Lines.terminated '\n' depKeys := by
  have hlines : ((Lines.fileLines depList).filter (fun l => strip l ≠ [])).map
      (fun l => l.rdropWhile isSpace) = depKeys := by decide
  rw [currentGraph, graphClean, hlines, List.dedup_eq_self.mpr (by decide),
    List.mergeSort_of_pairwise (by decide)]

theorem graphKeys_depList : graphKeys (currentGraph depList) = depKeys := by
  rw [currentGraph_depList]
  decide

/-- What a first update writes for the graph when the proxy answers with the time. -/
def depWritten (tm : Text) : List (LockEntry × Bool) :=
  [((depEntry.1, tm), true), (localEntry, true)]

section Answered

variable {w : World} {tm : Text} (hproxy : ∀ p v, w.proxy p v = some tm)
  (hparse : (parseTime w.isDecimal tm).isSome = true) (hdigits : DigitsSolid w.isDecimal)

include hproxy hparse

theorem writes_depList :
    List.Forall₂ (Writes w (oldEntries none)) (graphKeys (currentGraph depList))
      (depWritten tm) := by
  have hdep : parseKey depEntry.1 = some ⟨"k3sm.io/dep".toList, "v1.0.0".toList,
      "k3sm.io/dep".toList, "v1.0.0".toList, false⟩ := by decide
  have hlocal : parseKey localEntry.1 = some ⟨"k3sm.io/local".toList, "v0.1.0".toList,
      "../local#1".toList, [], true⟩ := by decide
  have hold (k : Text) : timeOf (oldEntries none) k = none := rfl
  rw [graphKeys_depList]
  refine .cons ⟨rfl, ?_, by decide⟩ (.cons ⟨rfl, ?_, by decide⟩ .nil)
  · exact .fetched hdep rfl (fun t ht => absurd ht (by simp [hold])) (hproxy _ _) hparse
  · exact .replaced hlocal rfl

include hdigits

theorem updateLock_depWritten :
    updateLock w none (currentGraph depList) =
      .ok ⟨lockText [(depEntry.1, tm), localEntry], lockText [(depEntry.1, tm), localEntry]⟩ := by
  have hof : Updated.of (depWritten tm) =
      ⟨lockText [(depEntry.1, tm), localEntry], lockText [(depEntry.1, tm), localEntry]⟩ := rfl
  rw [updateLock_of_writes hdigits (writes_depList hproxy hparse), hof]

theorem readLock_depWritten :
    readLock (Lines.fileLines (lockText [(depEntry.1, tm), localEntry])) =
      .ok [(depEntry.1, strip tm), localEntry] := by
  have hread := readLock_written hdigits (unhashed_graphKeys depList_isGoList.unhashed)
    (writes_depList hproxy hparse) (List.Subset.refl _)
  have hlocal : strip localEntry.2 = localEntry.2 := by decide
  simpa only [depWritten, readBack, List.map_cons, List.map_nil, hlocal] using hread

end Answered

theorem updateLock_depList :
    updateLock youngWorld none (currentGraph depList) = .ok depUpdated :=
  updateLock_depWritten (w := youngWorld) (fun _ _ => rfl) (by decide) isDigit_solid

theorem readLock_depUpdated :
    readLock (Lines.fileLines depUpdated.lock) = .ok [depEntry, localEntry] := by
  have hstrip : strip depEntry.2 = depEntry.2 := by decide
  have hread : readLock (Lines.fileLines (lockText [depEntry, localEntry])) =
      .ok [(depEntry.1, strip depEntry.2), localEntry] :=
    readLock_depWritten (w := youngWorld) (fun _ _ => rfl) (by decide) isDigit_solid
  rwa [hstrip] at hread

/-- Six days after its time the dependency is refused. -/
theorem cooldown_depUpdated : cooldown youngWorld [] (Lines.fileLines depUpdated.lock) =
    .error (.cooldown [depEntry]) := by
  have hage {ls : List Text} (h : readLock ls = .ok [depEntry, localEntry]) :
      cooldown youngWorld [] ls = .error (.cooldown [depEntry]) := by
    simp only [cooldown, h]
    decide +kernel
  exact hage readLock_depUpdated

theorem infoUrl_injective_letterCase :
    (infoUrl [] "k3sm.io/Dep".toList "v1.0.0".toList).map Char.toLower ≠
      (infoUrl [] "k3sm.io/dep".toList "v1.0.0".toList).map Char.toLower := by
  intro h
  have hsame := (infoUrl_injective (by decide) (by decide) (by decide) (by decide) (by decide)
    (by decide) h).1
  exact absurd hsame (by decide)

theorem update_locks_graph_depList :
    lockdiff (some (Lines.fileLines depUpdated.lock))
        (Lines.fileLines (currentGraph depList)) = 0 ∧
      ∃ es, readLock (Lines.fileLines depUpdated.lock) = .ok es ∧ es.map Prod.fst = depKeys := by
  obtain ⟨hdiff, es, hes, hkeys, -⟩ :=
    update_locks_graph isDigit_solid depList_isGoList updateLock_depList
  exact ⟨hdiff, es, hes, hkeys.trans graphKeys_depList⟩

/-- The run is refused for the age of the version, and is green when it is made again. -/
theorem update_again_depList :
    depRun.verdict none = .error (.cooldown (.cooldown [depEntry])) ∧
      depRun.verdict (depRun.after none) = .ok () := by
  have hafter : depRun.after none = some depUpdated.lock := by
    rw [UpdateRun.after, show updateLock depRun.world none (currentGraph depRun.goList) = _ from
      updateLock_depList]
  rw [hafter]
  refine ⟨?_, (update_again isDigit_solid depList_isGoList updateLock_depList depRun rfl rfl
    ⟨[], rfl⟩).1⟩
  rw [UpdateRun.verdict, show updateLock depRun.world none (currentGraph depRun.goList) = _ from
    updateLock_depList, ok_bind, checkLines]
  simp only [show cooldown depRun.world depRun.exempt (Lines.fileLines depUpdated.delta) = _ from
    cooldown_depUpdated]

end K3smApis.Deps
