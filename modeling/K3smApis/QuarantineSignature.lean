import K3smApis.QuarantineRegistry

/-!
# Signatures and the harness's own lines

`harnessReason` is meant to refuse a signature that go test's own lines for the test
carry. It does for the test id and the RUN line. It compares with the FAIL line up to
its duration only, so a signature that stops inside the duration gets through.
-/
namespace K3smApis.Quarantine

open Text Civil

/-- The seconds of a duration of `k` hundredths as `%.2f` prints them. -/
def seconds (k : ℕ) : Text :=
  Nat.toDigits 10 (k / 100) ++ ['.', (k / 10 % 10).digitChar, (k % 10).digitChar]

/-- The line go test prints when a test starts. -/
def runLine (name : Text) : Text := "=== RUN   ".toList ++ name

/-- The line go test prints for a test that failed after `k` hundredths of a second. -/
def failLine (name : Text) (k : ℕ) : Text := failMark name ++ (seconds k ++ "s)".toList)

/-- A nonempty start of a printed number of seconds. -/
def isCutSeconds (t : Text) : Bool :=
  let whole := t.takeWhile Char.isDigit
  whole ≠ [] && (whole = ['0'] || whole.head? ≠ some '0') &&
    match t.dropWhile Char.isDigit with
    | [] => true
    | '.' :: r => r.length ≤ 2 && r.all Char.isDigit
    | _ => false

/-- Digits of a printed duration, then a start of what follows them. -/
def isDurationPiece (t : Text) : Bool :=
  match t.dropWhile Char.isDigit with
  | [] => true
  | '.' :: r => (r.take 2).all Char.isDigit && r.drop 2 <+: "s)".toList
  | _ => false

/-- The signature is an end of the FAIL line up to its parenthesis followed by a cut
number of seconds, or a piece of a duration. -/
def endsInDuration (name sig : Text) : Bool :=
  (List.range sig.length).any (fun n =>
    0 < n && sig.take n <:+ failMark name && isCutSeconds (sig.drop n)) ||
  isDurationPiece sig

/-- Digits as `%.2f` prints them: no leading zero but in front of the point. -/
structure IsSeconds (whole : Text) (a b : Char) : Prop where
  digits : ∀ c ∈ whole, c.isDigit = true
  ne_nil : whole ≠ []
  lead : whole = ['0'] ∨ whole.head? ≠ some '0'
  tenth : a.isDigit = true
  hundredth : b.isDigit = true

theorem isDigit_digitChar {d : ℕ} (h : d < 10) : d.digitChar.isDigit = true := by
  interval_cases d <;> decide

/-- Digits that do not start with a zero are printed from a positive number. -/
theorem exists_toDigits {w : Text} (hd : ∀ c ∈ w, c.isDigit = true) (hne : w ≠ [])
    (hlead : w.head? ≠ some '0') : ∃ n, 0 < n ∧ Nat.toDigits 10 n = w := by
  induction w using List.reverseRecOn with
  | nil => exact absurd rfl hne
  | append_singleton w c ih =>
    obtain ⟨d, hd10, rfl⟩ := exists_digitChar (hd c (by simp))
    by_cases hw : w = []
    · subst hw
      refine ⟨d, Nat.pos_of_ne_zero ?_, Nat.toDigits_of_lt_base hd10⟩
      rintro rfl
      exact hlead rfl
    · obtain ⟨n, hn, hwn⟩ := ih (fun c hc => hd c (by simp [hc])) hw
        (by rwa [List.head?_append_of_ne_nil _ hw] at hlead)
      refine ⟨10 * n + d, by omega, ?_⟩
      rw [← Nat.toDigits_append_toDigits (by omega) hn hd10, hwn, Nat.toDigits_of_lt_base hd10]

theorem seconds_isSeconds (k : ℕ) :
    ∃ w a b, IsSeconds w a b ∧ seconds k = w ++ ['.', a, b] := by
  refine ⟨Nat.toDigits 10 (k / 100), (k / 10 % 10).digitChar, (k % 10).digitChar, ?_, rfl⟩
  refine ⟨?_, Nat.toDigits_ne_nil, ?_, isDigit_digitChar (by omega), isDigit_digitChar (by omega)⟩
  · intro c hc
    exact Nat.isDigit_of_mem_toDigits (by omega) (by omega) hc
  · by_cases h0 : k / 100 = 0
    · rw [h0]
      exact .inl rfl
    · exact .inr (toDigits_head?_ne_zero (by omega))

theorem IsSeconds.exists_seconds {w : Text} {a b : Char} (h : IsSeconds w a b) :
    ∃ k, seconds k = w ++ ['.', a, b] := by
  have hwhole : ∃ n, Nat.toDigits 10 n = w := by
    rcases h.lead with h0 | hlead
    · exact ⟨0, h0 ▸ rfl⟩
    · obtain ⟨n, -, hn⟩ := exists_toDigits h.digits h.ne_nil hlead
      exact ⟨n, hn⟩
  obtain ⟨n, hn⟩ := hwhole
  obtain ⟨x, hx, rfl⟩ := exists_digitChar h.tenth
  obtain ⟨y, hy, rfl⟩ := exists_digitChar h.hundredth
  refine ⟨100 * n + 10 * x + y, ?_⟩
  have hwholeVal : (100 * n + 10 * x + y) / 100 = n := by omega
  have htenth : (100 * n + 10 * x + y) / 10 % 10 = x := by omega
  have hhundredth : (100 * n + 10 * x + y) % 10 = y := by omega
  rw [seconds, hwholeVal, htenth, hhundredth, hn]

section Spans

variable {w r : Text}

theorem takeWhile_digits (hd : ∀ c ∈ w, c.isDigit = true) :
    (w ++ '.' :: r).takeWhile Char.isDigit = w := by
  rw [List.takeWhile_append_of_pos hd]
  simp

theorem dropWhile_digits (hd : ∀ c ∈ w, c.isDigit = true) :
    (w ++ '.' :: r).dropWhile Char.isDigit = '.' :: r := by
  rw [List.dropWhile_append_of_pos hd]
  simp

/-- A text splits into its leading digits and the rest. -/
theorem leading_digits (t : Text) :
    (∀ c ∈ t.takeWhile Char.isDigit, c.isDigit = true) ∧
      t = t.takeWhile Char.isDigit ++ t.dropWhile Char.isDigit :=
  ⟨fun _ hc => List.mem_takeWhile_imp hc, List.takeWhile_append_dropWhile.symm⟩

end Spans

/-- `isCutSeconds` accepts exactly the nonempty starts of printed seconds. -/
theorem isCutSeconds_iff {t : Text} :
    isCutSeconds t = true ↔ t ≠ [] ∧ ∃ k, t <+: seconds k := by
  constructor
  · intro h
    simp only [isCutSeconds, Bool.and_eq_true, Bool.or_eq_true, decide_eq_true_eq] at h
    obtain ⟨⟨hne, hlead⟩, hrest⟩ := h
    obtain ⟨hd, ht⟩ := leading_digits t
    have hseconds (a b : Char) (ha : a.isDigit = true) (hb : b.isDigit = true) :
        ∃ k, seconds k = t.takeWhile Char.isDigit ++ ['.', a, b] :=
      IsSeconds.exists_seconds ⟨hd, hne, hlead, ha, hb⟩
    refine ⟨fun hnil => hne (by rw [hnil]; rfl), ?_⟩
    rw [ht]
    split at hrest
    · next hdrop =>
      obtain ⟨k, hk⟩ := hseconds '0' '0' rfl rfl
      exact ⟨k, by rw [hk, hdrop]; simp⟩
    · next r hdrop =>
      rw [Bool.and_eq_true, decide_eq_true_eq, List.all_eq_true] at hrest
      rw [hdrop]
      match r, hrest with
      | [], _ =>
        obtain ⟨k, hk⟩ := hseconds '0' '0' rfl rfl
        exact ⟨k, by rw [hk]; simp⟩
      | [a], hr =>
        obtain ⟨k, hk⟩ := hseconds a '0' (hr.2 a (by simp)) rfl
        exact ⟨k, by rw [hk]; simp⟩
      | [a, b], hr =>
        obtain ⟨k, hk⟩ := hseconds a b (hr.2 a (by simp)) (hr.2 b (by simp))
        exact ⟨k, by rw [hk]⟩
      | _ :: _ :: _ :: _, hr => exact absurd hr.1 (by simp)
    · exact absurd hrest (by simp)
  · rintro ⟨hne, k, hk⟩
    obtain ⟨w, a, b, hw, hs⟩ := seconds_isSeconds k
    rw [hs] at hk
    have hcases : t <+: w ∨ ∃ r, t = w ++ '.' :: r ∧ r <+: [a, b] := by
      rcases prefix_append_cases hk with hpre | ⟨r, rfl, hr⟩
      · exact .inl hpre
      · rcases List.prefix_cons_iff.mp hr with rfl | ⟨r', rfl, hr'⟩
        · exact .inl (by simp)
        · exact .inr ⟨r', rfl, hr'⟩
    rcases hcases with ⟨u, rfl⟩ | ⟨r, rfl, hr⟩
    · have hd : ∀ c ∈ t, c.isDigit = true := fun c hc => hw.digits c (by simp [hc])
      have hlead : t = ['0'] ∨ t.head? ≠ some '0' := by
        have h := hw.lead
        rw [List.head?_append_of_ne_nil _ hne, List.append_eq_singleton_iff] at h
        exact h.imp_left (fun h => (h.resolve_left (fun h => hne h.1)).1)
      have htake : t.takeWhile Char.isDigit = t := List.takeWhile_eq_self_iff.mpr hd
      have hdrop : t.dropWhile Char.isDigit = [] := List.dropWhile_eq_nil_iff.mpr hd
      simpa [isCutSeconds, htake, hdrop, hne] using hlead
    · have hlen : r.length ≤ 2 := hr.length_le
      have hdigits : ∀ c ∈ r, c.isDigit = true := by
        intro c hc
        rcases List.mem_pair.mp (hr.mem hc) with rfl | rfl
        · exact hw.tenth
        · exact hw.hundredth
      simpa [isCutSeconds, takeWhile_digits hw.digits, dropWhile_digits hw.digits, hw.ne_nil, hlen]
        using And.intro hw.lead hdigits

/-- `isDurationPiece` accepts exactly the pieces of printed durations, among texts too
long to lie behind the whole seconds. -/
theorem isDurationPiece_iff {t : Text} (hlen : minSigChars ≤ t.length) :
    isDurationPiece t = true ↔ ∃ k, t <:+: seconds k ++ "s)".toList := by
  constructor
  · intro h
    obtain ⟨hd, ht⟩ := leading_digits t
    -- the digits go behind a leading one, so that they may start with a zero
    have hseconds (a b : Char) (ha : a.isDigit = true) (hb : b.isDigit = true) :
        ∃ k, seconds k = '1' :: t.takeWhile Char.isDigit ++ ['.', a, b] := by
      refine IsSeconds.exists_seconds ⟨?_, by simp, .inr (by simp), ha, hb⟩
      intro c hc
      rcases List.mem_cons.mp hc with rfl | hc
      · rfl
      · exact hd c hc
    have hpiece (a b : Char) (ha : a.isDigit = true) (hb : b.isDigit = true)
        (hdrop : t.dropWhile Char.isDigit <+: ['.', a, b, 's', ')']) :
        ∃ k, t <:+: seconds k ++ "s)".toList := by
      obtain ⟨k, hk⟩ := hseconds a b ha hb
      obtain ⟨u, hu⟩ := hdrop
      refine ⟨k, ['1'], u, ?_⟩
      calc ['1'] ++ t ++ u
          = '1' :: (t.takeWhile Char.isDigit ++ (t.dropWhile Char.isDigit ++ u)) := by
            rw [← List.append_assoc, ← ht]
            rfl
        _ = seconds k ++ "s)".toList := by
            rw [hk, hu]
            simp
    simp only [isDurationPiece] at h
    split at h
    · next hdrop => exact hpiece '0' '0' rfl rfl (by simp [hdrop])
    · next r hdrop =>
      rw [Bool.and_eq_true, List.all_eq_true, decide_eq_true_eq] at h
      rw [hdrop] at hpiece
      match r, h with
      | [], _ => exact hpiece '0' '0' rfl rfl (by simp)
      | [a], h => exact hpiece a '0' (h.1 a (by simp)) rfl (by simp)
      | a :: b :: r, h =>
        refine hpiece a b (h.1 a (by simp)) (h.1 b (by simp)) ?_
        simpa using h.2
    · exact absurd h (by simp)
  · rintro ⟨k, hk⟩
    obtain ⟨w, a, b, hw, hs⟩ := seconds_isSeconds k
    rw [hs, List.append_assoc] at hk
    rcases List.infix_append_iff.mp hk with hin | hin | ⟨l₁, l₂, rfl, h₁, h₂⟩
    · have hd : ∀ c ∈ t, c.isDigit = true := fun c hc => hw.digits c (hin.mem hc)
      have hdrop : t.dropWhile Char.isDigit = [] := List.dropWhile_eq_nil_iff.mpr hd
      simp [isDurationPiece, hdrop]
    · exact absurd (hlen.trans hin.length_le) (by simp [minSigChars])
    · have hd : ∀ c ∈ l₁, c.isDigit = true := fun c hc => hw.digits c (h₁.mem hc)
      rcases List.prefix_cons_iff.mp h₂ with rfl | ⟨r, rfl, hr⟩
      · have hdrop : l₁.dropWhile Char.isDigit = [] := List.dropWhile_eq_nil_iff.mpr hd
        simp [isDurationPiece, hdrop]
      · simp only [isDurationPiece, dropWhile_digits hd, Bool.and_eq_true, List.all_eq_true,
          decide_eq_true_eq]
        refine ⟨fun c hc => ?_, by simpa using hr.drop 2⟩
        rcases List.mem_pair.mp ((hr.take 2).mem hc) with rfl | rfl
        · exact hw.tenth
        · exact hw.hundredth

theorem cutDuration_isPrefix (t : Text) : cutDuration t <+: t := by
  induction t with
  | nil => exact List.prefix_rfl
  | cons c t ih =>
    rw [cutDuration]
    split_ifs with h
    · rw [Bool.and_eq_true, decide_eq_true_eq] at h
      rw [h.1]
      exact ⟨t, rfl⟩
    · exact List.prefix_cons_inj c |>.mpr ih

/-- A duration at the end of a signature is cut off behind its parenthesis, or in front
of it. -/
theorem cutDuration_append {p d : Text} (hd : isDuration d = true) :
    cutDuration (p ++ '(' :: d) <+: p ++ ['('] := by
  induction p with
  | nil => simp [cutDuration, hd]
  | cons c p ih =>
    rw [List.cons_append, cutDuration]
    split_ifs with h
    · rw [Bool.and_eq_true, decide_eq_true_eq] at h
      rw [h.1]
      exact ⟨p ++ ['('], rfl⟩
    · exact List.prefix_cons_inj c |>.mpr ih

theorem isDuration_seconds (k : ℕ) {u : Text} (hu : closesDuration u = true) :
    isDuration (seconds k ++ 's' :: u) = true := by
  obtain ⟨w, a, b, hw, hs⟩ := seconds_isSeconds k
  have hshape : seconds k ++ 's' :: u = w ++ '.' :: ([a, b] ++ 's' :: u) := by simp [hs]
  have hab : ∀ c ∈ [a, b], c.isDigit = true := by simp [hw.tenth, hw.hundredth]
  rw [hshape, isDuration, takeWhile_digits hw.digits, dropWhile_digits hw.digits]
  simp only [List.takeWhile_append_of_pos hab, List.dropWhile_append_of_pos hab]
  simp [hw.ne_nil, endsDuration, hu]

theorem after?_eq_some {start t r : Text} (h : after? start t = some r) : t = start ++ r := by
  unfold after? at h
  split_ifs at h with hp
  obtain ⟨u, rfl⟩ := hp
  simpa using h

theorem isBlank_eq_false_of_isPathRune {c : Char} (h : (isPathRune c || c = '/') = true) :
    isBlank c = false := by
  rw [Bool.eq_false_iff]
  intro hb
  simp only [isBlank, Bool.or_eq_true, decide_eq_true_eq] at hb
  rcases hb with (((rfl | rfl) | rfl) | rfl) | rfl <;> exact absurd h (by decide)

theorem isBlank_eq_false_of_isWord {c : Char} (h : isWord c = true) : isBlank c = false :=
  isBlank_eq_false_of_isPathRune (by simp [isPathRune, h])

theorem goID_some {test pkg name : Text} (h : goID test = some (pkg, name)) :
    test = pkg ++ "::".toList ++ name ∧ name ≠ [] ∧ ∀ c ∈ test, isBlank c = false := by
  simp only [goID, Option.bind_eq_bind] at h
  split_ifs at h
  simp only [Option.bind_eq_some_iff] at h
  obtain ⟨name', hname, tail, htail, hrest⟩ := h
  obtain ⟨start, hstart, htail⟩ := List.exists_of_findSome?_eq_some htail
  have hname' := after?_eq_some htail
  -- both accepting branches return the same pair, and leave no blank in the tail
  have hboth : (test.takeWhile (fun c => isPathRune c || c = '/') = pkg ∧ name' = name) ∧
      ∀ c ∈ tail.dropWhile isWord, isBlank c = false := by
    split at hrest
    · next hdrop => simpa [hdrop] using hrest
    · next sub hdrop =>
      split_ifs at hrest with hsub
      have hblank : ∀ c ∈ sub, isBlank c = false := by simpa using hsub.2
      refine ⟨by simpa using hrest, ?_⟩
      rw [hdrop, List.forall_mem_cons]
      exact ⟨by decide, hblank⟩
    · exact absurd hrest (by simp)
  obtain ⟨⟨hpkg, rfl⟩, hdrop⟩ := hboth
  have htest : test = pkg ++ "::".toList ++ name' := by
    rw [List.append_assoc, ← after?_eq_some hname, ← hpkg]
    exact (List.prefix_iff_eq_append.mp (List.takeWhile_prefix _)).symm
  have hstart' : start.toList ≠ [] ∧ ∀ c ∈ start.toList, isBlank c = false := by
    have hall : ∀ s ∈ ["Test", "Example", "Fuzz"],
        s.toList ≠ [] ∧ s.toList.all (fun c => !isBlank c) = true := by decide
    simpa using hall start hstart
  refine ⟨htest, by simp [hname', hstart'.1], ?_⟩
  rw [htest]
  intro c hc
  rcases List.mem_append.mp hc with hc | hc
  · rcases List.mem_append.mp hc with hc | hc
    · rw [← hpkg] at hc
      have hp := List.mem_takeWhile_imp hc
      exact isBlank_eq_false_of_isPathRune hp
    · have hcolons : "::".toList.all (fun c => !isBlank c) = true := by decide
      simpa using List.all_eq_true.mp hcolons c hc
  · rw [hname'] at hc
    rcases List.mem_append.mp hc with hc | hc
    · exact hstart'.2 c hc
    · rw [← List.takeWhile_append_dropWhile (p := isWord) (l := tail)] at hc
      rcases List.mem_append.mp hc with hc | hc
      · exact isBlank_eq_false_of_isWord (List.mem_takeWhile_imp hc)
      · exact hdrop c hc

section Refused

variable {test name sig : Text}

/-- Something other than spaces is left when the duration is cut off. -/
theorem cutDuration_nonspace {t : Text} (h : ∃ c ∈ t, isSpace c = false) :
    ∃ c ∈ cutDuration t, isSpace c = false := by
  induction t with
  | nil => exact h
  | cons d t ih =>
    rw [cutDuration]
    split_ifs with hcut
    · exact ⟨'(', by simp, by decide⟩
    · obtain ⟨c, hc, hspace⟩ := h
      rcases List.mem_cons.mp hc with rfl | hc
      · exact ⟨c, by simp, hspace⟩
      · obtain ⟨c, hc, hspace⟩ := ih ⟨c, hc, hspace⟩
        exact ⟨c, List.mem_cons_of_mem _ hc, hspace⟩

theorem norm_cutDuration_ne_nil (h : sig.trimSpace ≠ []) : norm (cutDuration sig) ≠ [] := by
  simp only [ne_eq, trimSpace_eq_nil, not_forall, Bool.not_eq_true] at h
  obtain ⟨c, hc, hspace⟩ := h
  obtain ⟨c, hc, hspace⟩ := cutDuration_nonspace ⟨c, hc, hspace⟩
  have hblank : isBlank c = false := by
    rw [Bool.eq_false_iff]
    intro hb
    rw [isSpace_of_isBlank hb] at hspace
    exact absurd hspace (by decide)
  rw [norm, ne_eq, trimSpace_eq_nil]
  intro hall
  rw [hall c (mem_collapseAfter hblank hc)] at hspace
  exact absurd hspace (by decide)

theorem harnessReason_none (hne : norm (cutDuration sig) ≠ [])
    (h : harnessReason test name sig = none) :
    ¬norm sig <:+: test ∧ ¬norm (cutDuration sig) <:+: runMark name ∧
      ¬norm (cutDuration sig) <:+: failMark name := by
  simp only [harnessReason, if_neg hne] at h
  split_ifs at h with htest hrun hfail
  simp only [Bool.or_eq_true, contains_iff, not_or] at htest hrun hfail
  exact ⟨htest.2, hrun, hfail⟩

/-- A piece of a line, normalised, is a piece of the line with its blanks collapsed. -/
theorem norm_isInfix {t line : Text} (h : t <:+: line) : norm t <:+: line.collapse :=
  (trimSpace_isInfix _).trans (collapse_isInfix h)

end Refused

section Lines

variable {name : Text}

theorem collapse_runLine (hname : ∀ c ∈ name, isBlank c = false) :
    (runLine name).collapse = runMark name := by
  have hstart : collapseAfter false "=== RUN   ".toList = "=== RUN ".toList := by decide
  unfold runLine runMark collapse
  rw [collapseAfter_append, hstart, collapseAfter_eq_self hname]

theorem collapse_failMark (hne : name ≠ []) (hname : ∀ c ∈ name, isBlank c = false) :
    (failMark name).collapse = failMark name := by
  have hstart : collapseAfter false "--- FAIL: ".toList = "--- FAIL: ".toList := by decide
  have hend : collapseAfter false " (".toList = " (".toList := by decide
  have hblank : endsBlank false ("--- FAIL: ".toList ++ name) = false := by
    rw [endsBlank_append, endsBlank_eq_false hne hname]
  unfold failMark collapse
  rw [collapseAfter_append, hblank, hend, collapseAfter_append, hstart,
    collapseAfter_eq_self hname]

end Lines

theorem endsInDuration_iff {name sig : Text} : endsInDuration name sig = true ↔
    (∃ a d, sig = a ++ d ∧ a ≠ [] ∧ a <:+ failMark name ∧ isCutSeconds d = true) ∨
      isDurationPiece sig = true := by
  simp only [endsInDuration, Bool.or_eq_true, List.any_eq_true, List.mem_range, Bool.and_eq_true,
    decide_eq_true_eq]
  refine or_congr_left ?_
  constructor
  · rintro ⟨n, hn, ⟨hpos, hsuffix⟩, hcut⟩
    refine ⟨sig.take n, sig.drop n, (List.take_append_drop n sig).symm, ?_, hsuffix, hcut⟩
    rw [ne_eq, List.take_eq_nil_iff]
    rintro (rfl | rfl)
    · exact absurd hpos (by decide)
    · exact absurd hn (by simp)
  · rintro ⟨a, d, rfl, hne, hsuffix, hcut⟩
    have hd : d ≠ [] := (isCutSeconds_iff.mp hcut).1
    have ha := List.length_pos_of_ne_nil hne
    have hd' := List.length_pos_of_ne_nil hd
    refine ⟨a.length, by simpa using hd', ⟨ha, ?_⟩, ?_⟩
    · simpa using hsuffix
    · simpa using hcut

/-- An end of the FAIL line up to its duration closes with the parenthesis. -/
theorem failMark_isSuffix {name a : Text} (h : a <:+ failMark name) (hne : a ≠ []) :
    ∃ b, a = b ++ ['('] := by
  have hmark : failMark name = ("--- FAIL: ".toList ++ name ++ [' ']) ++ ['('] := by
    unfold failMark
    simp
  rw [hmark] at h
  rcases List.suffix_concat_iff.mp h with rfl | ⟨b, rfl, -⟩
  · exact absurd rfl hne
  · exact ⟨b, rfl⟩

/-- A signature that ends in the duration occurs in a FAIL line. -/
theorem infix_failLine_of_endsInDuration {name sig : Text} (hlen : minSigChars ≤ sig.length)
    (h : endsInDuration name sig = true) : ∃ k, sig <:+: failLine name k := by
  rcases endsInDuration_iff.mp h with ⟨a, d, rfl, -, ⟨p, hp⟩, hcut⟩ | hpiece
  · obtain ⟨-, k, u, hu⟩ := isCutSeconds_iff.mp hcut
    refine ⟨k, p, u ++ "s)".toList, ?_⟩
    rw [failLine, ← hp, ← hu]
    simp
  · obtain ⟨k, hk⟩ := (isDurationPiece_iff hlen).mp hpiece
    exact ⟨k, hk.trans (List.suffix_append _ _).isInfix⟩

/-- A signature that occurs in a FAIL line ends in its duration, or what is left of it
without the duration lies in front of the duration. -/
theorem infix_failLine {name sig : Text} {k : ℕ} (hlen : minSigChars ≤ sig.length)
    (h : sig <:+: failLine name k) :
    endsInDuration name sig = true ∨ cutDuration sig <:+: failMark name := by
  rw [endsInDuration_iff]
  rcases List.infix_append_iff.mp h with hin | hin | ⟨a, d, rfl, ha, hd⟩
  · exact .inr ((cutDuration_isPrefix sig).isInfix.trans hin)
  · exact .inl (.inr ((isDurationPiece_iff hlen).mpr ⟨k, hin⟩))
  · by_cases ha' : a = []
    · subst ha'
      exact .inl (.inr ((isDurationPiece_iff hlen).mpr ⟨k, hd.isInfix⟩))
    by_cases hd' : d = []
    · subst hd'
      exact .inr ((cutDuration_isPrefix _).isInfix.trans (by simpa using ha.isInfix))
    rcases prefix_append_cases hd with hsec | ⟨r, rfl, hr⟩
    · exact .inl (.inl ⟨a, d, rfl, ha', ha, isCutSeconds_iff.mpr ⟨hd', k, hsec⟩⟩)
    rcases List.prefix_cons_iff.mp hr with rfl | ⟨u, rfl, hu⟩
    · exact .inl (.inl ⟨a, _, rfl, ha', ha, isCutSeconds_iff.mpr ⟨hd', k, by simp⟩⟩)
    · -- the duration is complete: it is cut off behind the parenthesis that ends `a`
      obtain ⟨a, rfl⟩ := failMark_isSuffix ha ha'
      have hclose : closesDuration u = true := by
        rcases List.prefix_cons_iff.mp hu with rfl | ⟨v, rfl, hv⟩
        · rfl
        · rw [List.prefix_nil.mp hv]
          rfl
      have hcut := cutDuration_append (p := a) (isDuration_seconds k hclose)
      rw [List.append_assoc]
      exact .inr (hcut.isInfix.trans ha.isInfix)

/-- For every entry a registry yields with a Go test id: its signature occurs in neither
the test id nor the harness's RUN and FAIL lines for the test, whatever the duration,
exactly when it does not stop inside the duration of the FAIL line. -/
theorem signature_foreign_iff (text : Text) (e : Entry) (pkg name : Text)
    (he : e ∈ (parseRegistry text).1) (hid : goID e.test = some (pkg, name)) :
    (¬e.sig <:+: e.test ∧ ¬e.sig <:+: runLine name ∧ ∀ k, ¬e.sig <:+: failLine name k) ↔
      endsInDuration name e.sig = false := by
  obtain ⟨name', hacc⟩ := parseRegistry_accepted he
  have hname : name' = name := by
    have h := hacc.id
    rw [splitTestID, hid] at h
    simpa using (congrArg Prod.snd (Option.some.inj h)).symm
  subst hname
  obtain ⟨htest, hne, hblank⟩ := goID_some hid
  have hnameBlank : ∀ c ∈ name', isBlank c = false := by
    intro c hc
    exact hblank c (by rw [htest]; simp [hc])
  obtain ⟨hnotTest, hnotRun, hnotFail⟩ :=
    harnessReason_none (norm_cutDuration_ne_nil hacc.sig_nonblank) hacc.sig_harness
  constructor
  · rintro ⟨-, -, hfail⟩
    rw [Bool.eq_false_iff]
    intro h
    obtain ⟨k, hk⟩ := infix_failLine_of_endsInDuration hacc.sig_length h
    exact hfail k hk
  · intro h
    refine ⟨fun hin => hnotTest ?_, fun hin => hnotRun ?_, fun k hin => hnotFail ?_⟩
    · rw [← collapseAfter_eq_self hblank]
      exact norm_isInfix hin
    · rw [← collapse_runLine hnameBlank]
      exact norm_isInfix ((cutDuration_isPrefix _).isInfix.trans hin)
    · rw [← collapse_failMark hne hnameBlank]
      rcases infix_failLine hacc.sig_length hin with hends | hcut
      · exact absurd hends (by simp [h])
      · exact norm_isInfix hcut

/-- A registry whose one signature stops inside the duration. -/
def cutDurationRegistry : Text :=
  ("k3sm.io/x::TestFoo sig=\"TestFoo (0.0\" owner=a filed=2026-01-01 " ++
    "deadline=2026-02-01 fix=b reason=c").toList

def cutDurationEntry : Entry where
  line := 1
  test := "k3sm.io/x::TestFoo".toList
  pkg := "k3sm.io/x".toList
  sig := "TestFoo (0.0".toList
  owner := ['a']
  fix := ['b']
  deadline := "2026-02-01".toList
  deadlineDate := ⟨2026, 2, 1⟩

/-- The registry is valid, and its signature occurs in the line go test prints when the
test fails after a hundredth of a second, whatever made it fail. -/
theorem cutDurationRegistry_matches_failLine :
    parseRegistry cutDurationRegistry = ([cutDurationEntry], []) ∧
      failLine "TestFoo".toList 1 = "--- FAIL: TestFoo (0.01s)".toList ∧
      cutDurationEntry.sig <:+: failLine "TestFoo".toList 1 := by
  decide +kernel

/-- A registry whose signature is a message of the test's own. -/
def ownMessageRegistry : Text :=
  ("k3sm.io/x::TestFoo sig=\"dial tcp: timed out\" owner=a filed=2026-01-01 " ++
    "deadline=2026-02-01 fix=b reason=c").toList

def ownMessageEntry : Entry := { cutDurationEntry with sig := "dial tcp: timed out".toList }

theorem signature_foreign_iff_ownMessage :
    (ownMessageEntry ∈ (parseRegistry ownMessageRegistry).1 ∧
      goID ownMessageEntry.test = some ("k3sm.io/x".toList, "TestFoo".toList)) ∧
    (¬ownMessageEntry.sig <:+: ownMessageEntry.test ∧
      ¬ownMessageEntry.sig <:+: runLine "TestFoo".toList ∧
      ∀ k, ¬ownMessageEntry.sig <:+: failLine "TestFoo".toList k) :=
  ⟨by decide +kernel,
    (signature_foreign_iff ownMessageRegistry ownMessageEntry "k3sm.io/x".toList "TestFoo".toList
      (by decide +kernel) (by decide +kernel)).mpr (by decide +kernel)⟩

end K3smApis.Quarantine
