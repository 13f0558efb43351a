import K3smApis.AnnotationTypes
import K3smApis.Schema

/-!
# What the schemas of the budget resources share

Integers, enumerations and the ladder rules, which stand in both manifests: every pair of
rungs in order, every release on the calm side of its rung, and no evict-soft rung on
memory.swap. Each comes with the fact it states of the Go value it was encoded from.
-/
namespace K3smApis.Budget
open GoJson Schema

theorem accepts_integer {lo hi : Option ℤ} {n : ℤ} :
    (Schema.integer lo hi).accepts (.num (Decimal.ofInt n)) = true ↔
      (∀ l ∈ lo, l ≤ n) ∧ ∀ h ∈ hi, n ≤ h := by
  simp only [Schema.accepts, Decimal.signed_ofInt, Bool.and_eq_true, Option.all_eq_true,
    decide_eq_true_iff]
  rfl

theorem accepts_int64 {lo hi : Option ℤ} {n : Int64} :
    (Schema.integer lo hi).accepts (int64.encode n) = true ↔
      (∀ l ∈ lo, l ≤ n.toInt) ∧ ∀ h ∈ hi, n.toInt ≤ h :=
  accepts_integer

theorem accepts_int32 {lo hi : Option ℤ} {n : Int32} :
    (Schema.integer lo hi).accepts (int32.encode n) = true ↔
      (∀ l ∈ lo, l ≤ n.toInt) ∧ ∀ h ∈ hi, n.toInt ≤ h :=
  accepts_integer

/-- `type: integer`, `format: int64` and a minimum. -/
def int64From (minimum : ℤ) : Schema := .integer (some minimum) none

/-- `type: integer`, `format: int64`, `minimum: 0` and `maximum: 1000`. -/
def permille64 : Schema := .integer (some 0) (some 1000)

/-- `type: integer`, `format: int32` and both bounds. -/
def int32Within (minimum maximum : ℤ) : Schema := .integer (some minimum) (some maximum)

@[simp] theorem accepts_int64From {lo : ℤ} {n : Int64} :
    (int64From lo).accepts (int64.encode n) = true ↔ lo ≤ n.toInt := by
  simp [int64From, accepts_int64]

@[simp] theorem accepts_permille64 {n : Int64} :
    permille64.accepts (int64.encode n) = true ↔ 0 ≤ n.toInt ∧ n.toInt ≤ 1000 := by
  simp [permille64, accepts_int64]

@[simp] theorem accepts_int32Within {lo hi : ℤ} {n : Int32} :
    (int32Within lo hi).accepts (int32.encode n) = true ↔ lo ≤ n.toInt ∧ n.toInt ≤ hi := by
  simp [int32Within, accepts_int32]

/-- `type: string` with an enumeration. -/
def enumOf (words : List String) : Schema := .string { enum := some words }

/-- A word in ASCII: its bytes are its characters. -/
def plainWord (w : String) : Bool := (lit w).all (· < 0x80) && Utf8.runes (lit w) = w.toList

/-- A plain word is the text of its own bytes only. -/
theorem runes_eq_word {w : String} (hw : plainWord w = true) {s : GoString} :
    Utf8.runes s = w.toList ↔ s = lit w := by
  rw [plainWord, Bool.and_eq_true, List.all_eq_true, decide_eq_true_iff] at hw
  rw [← hw.2]
  exact Utf8.runes_eq_ascii fun b hb => of_decide_eq_true (hw.1 b hb)

/-- A rule that compares a text with a plain word compares the bytes. -/
theorem eval_eq_word {self : Json} {a : Cel.Expr} {s : GoString} {w : String}
    (ha : Cel.eval self a = some (.str (Utf8.runes s))) (hw : plainWord w = true) :
    Cel.eval self (.eq a (.text w)) = some (.bool (decide (s = lit w))) := by
  rw [Cel.eval_eq ha (rfl : Cel.eval self (.text w) = some (.str w.toList))]
  simp only [Cel.Scalar.str.injEq, runes_eq_word hw]

theorem accepts_text_enumOf {words : List String} (hplain : words.all plainWord = true)
    {s : GoString} : (enumOf words).accepts (.str s) = true ↔ s ∈ words.map lit := by
  simp only [enumOf, Schema.accepts, StringRules.accepts, Option.all_some, Option.all_none,
    Bool.and_true, Bool.not_false, Bool.true_or, decide_eq_true_iff, List.mem_map]
  refine exists_congr fun w => and_congr_right fun hw => ?_
  rw [eq_comm, runes_eq_word (List.all_eq_true.mp hplain w hw), eq_comm]

section Words

variable {V : Type} [Vocabulary V] {words : List String}

/-- The words of an enumeration are those of the vocabulary. -/
structure Lists (V : Type) [Vocabulary V] (words : List String) : Prop where
  plain : words.all plainWord = true
  same : words = (Vocabulary.words : List V).map Vocabulary.spell

theorem Lists.accepts (h : Lists V words) {w : Wire V} :
    (enumOf words).accepts (.str w.text) = true ↔ Known w := by
  rw [accepts_text_enumOf h.plain, h.same, List.map_map, List.mem_map]
  constructor
  · rintro ⟨v, -, hv⟩
    exact ⟨v, by cases w; exact congrArg Wire.mk hv.symm⟩
  · rintro ⟨v, rfl⟩
    exact ⟨v, Vocabulary.complete v, rfl⟩

theorem Lists.fits_never (h : Lists V words) {w : Wire V} :
    FieldFits .never enum (enumOf words) w ↔ Known w :=
  Schema.fits_never.trans h.accepts

theorem Lists.fits_empty (h : Lists V words) {w : Wire V} :
    FieldFits .empty enum (enumOf words) w ↔ UnsetOrKnown w := by
  have hempty : enum.isEmpty w = true ↔ w = default := by
    show decide (w.text = []) = true ↔ _
    rw [decide_eq_true_iff]
    exact ⟨fun hw => by cases w; exact congrArg Wire.mk hw, fun hw => hw ▸ rfl⟩
  exact or_congr hempty h.accepts

/-- Known words differ in their text when they differ. -/
theorem Lists.runes_inj (h : Lists V words) {w u : Wire V} (hu : Known u) :
    Utf8.runes w.text = Utf8.runes u.text ↔ w = u := by
  obtain ⟨v, rfl⟩ := hu
  have hmem : Vocabulary.spell v ∈ words := h.same ▸ List.mem_map_of_mem (Vocabulary.complete v)
  have hplain := List.all_eq_true.mp h.plain _ hmem
  rw [plainWord, Bool.and_eq_true, List.all_eq_true] at hplain
  have htext : Utf8.runes w.text = Utf8.runes (word v).text ↔ w.text = (word v).text :=
    Utf8.runes_eq_ascii fun b hb => of_decide_eq_true (hplain.1 b hb)
  rw [htext]
  exact ⟨fun ht => by cases w; exact congrArg Wire.mk ht, fun ht => ht ▸ rfl⟩

/-- A key of one word tells items apart as the word does. -/
theorem Lists.key_inj (h : Lists V words) {w u : Wire V} (hu : Known u) :
    [some (Cel.Scalar.str (Utf8.runes w.text))] = [some (Cel.Scalar.str (Utf8.runes u.text))] ↔
      w = u := by
  rw [List.singleton_inj, Option.some.injEq, Cel.Scalar.str.injEq, h.runes_inj hu]

end Words

/-- The enumeration of the signals. -/
def signalWords : List String :=
  ["memory.available", "memory.compressor", "memory.swap", "swapfs.available",
    "nodefs.available", "imagefs.available", "pid.available"]

theorem lists_signals : Lists SignalID signalWords := ⟨by decide, rfl⟩

/-- The enumeration of the kill modes. -/
def killModeWords : List String := ["auto", "on", "off"]

theorem lists_killModes : Lists KillModeName killModeWords := ⟨by decide, rfl⟩

open Cel (Expr)

/-- `!has(x) || !has(y) || (sig.endsWith('.available') ? a > b : a < b)`. -/
def calmRule (sig x y a b : String) : Expr :=
  .or (.or (.not (.has [] x)) (.not (.has [] y)))
    (.cond (.endsWith (.field [sig]) ".available")
      (.gt (.field [a]) (.field [b])) (.lt (.field [a]) (.field [b])))

/-- The first rung is on the calm side of the second. -/
def rungRule (sig a b : String) : Expr := calmRule sig a b a b

/-- A release is on the calm side of its rung. -/
def releaseRule (sig rung release : String) : Expr := calmRule sig rung release release rung

/-- `sig != 'memory.swap' || !has(self.evictSoftThreshold)`. -/
def swapRule (sig : String) : Expr :=
  .or (.ne (.field [sig]) (.text "memory.swap")) (.not (.has [] "evictSoftThreshold"))

/-- The ladder rules of a manifest, in its order; `sig` is the field that names the signal. -/
def ladderRules (sig : String) : List Expr :=
  [rungRule sig "warnThreshold" "admitStopThreshold",
    rungRule sig "warnThreshold" "criticalThreshold",
    rungRule sig "warnThreshold" "evictSoftThreshold",
    rungRule sig "warnThreshold" "evictHardThreshold",
    rungRule sig "admitStopThreshold" "criticalThreshold",
    rungRule sig "admitStopThreshold" "evictSoftThreshold",
    rungRule sig "admitStopThreshold" "evictHardThreshold",
    rungRule sig "criticalThreshold" "evictSoftThreshold",
    rungRule sig "criticalThreshold" "evictHardThreshold",
    rungRule sig "evictSoftThreshold" "evictHardThreshold",
    releaseRule sig "warnThreshold" "warnRelease",
    releaseRule sig "admitStopThreshold" "admitStopRelease",
    releaseRule sig "criticalThreshold" "criticalRelease",
    releaseRule sig "evictSoftThreshold" "evictSoftRelease",
    releaseRule sig "evictHardThreshold" "evictHardRelease",
    swapRule sig]

/-- The rules pair up the rungs as the nested loops of `checkLadder` do, and each rung with
its release. -/
theorem ladderRules_eq (sig : String) : ladderRules sig =
    (orderedPairs rungNames).map (fun p => rungRule sig p.1 p.2) ++
      (releaseNames.zip rungNames).map (fun p => releaseRule sig p.2 p.1) ++ [swapRule sig] := rfl

/-- CEL's test of the signal's name is the validator's. -/
theorem endsWith_available (v : SignalID) :
    (".available".toList.isSuffixOf (Utf8.runes (word v).text)) = isDescending (word v) := by
  cases v <;> decide

theorem scalar_int64 (n : Int64) : Cel.scalar? (int64.encode n) = some (.int n.toInt) := by
  have hparse : Decimal.parseInt 64 (Decimal.ofInt n.toInt) = some n.toInt :=
    Decimal.parseInt_ofInt n.le_toInt n.toInt_lt
  show (Decimal.parseInt 64 (Decimal.ofInt n.toInt)).map _ = _
  rw [hparse, Option.map_some]

/-- The value a record's ladder gives a field name. -/
def ladderValue (rungs releases : List (Option Int64)) (name : String) : Option Int64 :=
  (((rungNames ++ releaseNames).zip (rungs ++ releases)).lookup name).getD none

section Ladder

variable {ms : List (GoString × Json)} {sig : String} {v : SignalID}
  (hsig : member? ms (lit sig) = some (.str (word v).text))

include hsig

theorem eval_endsWith : Cel.eval (.obj ms) (.endsWith (.field [sig]) ".available") =
    some (.bool (isDescending (word v))) := by
  have hfield : Cel.eval (.obj ms) (.field [sig]) = some (.str (Utf8.runes (word v).text)) := by
    rw [Cel.eval_field, hsig]
    rfl
  rw [Cel.eval_endsWith hfield, endsWith_available]

/-- A rule over two values of the ladder. -/
theorem holds_calmRule {x y a b : String} {p q : Option Int64}
    (hxy : ((member? ms (lit x)).isNone = true ∨ (member? ms (lit y)).isNone = true) ↔
      p.isNone = true ∨ q.isNone = true)
    (ha : member? ms (lit a) = p.map int64.encode) (hb : member? ms (lit b) = q.map int64.encode) :
    (calmRule sig x y a b).holds (.obj ms) = true ↔ CalmerOpt (isDescending (word v)) p q := by
  have hint {name : String} {n : Int64} (h : member? ms (lit name) = some (int64.encode n)) :
      Cel.eval (.obj ms) (.field [name]) = some (.int n.toInt) := by
    rw [Cel.eval_field, h, Option.bind_some, scalar_int64]
  rw [calmRule, Cel.holds_or, Cel.holds_or, Cel.holds_not_has, Cel.holds_not_has, hxy,
    Cel.holds_cond (eval_endsWith hsig)]
  cases p with
  | none => simp [CalmerOpt]
  | some p =>
    cases q with
    | none => simp [CalmerOpt]
    | some q =>
      have hp := hint ha
      have hq := hint hb
      simp only [CalmerOpt, calmer, Option.mem_some_iff, forall_eq', Option.isNone_some,
        Bool.false_eq_true, or_self, false_or]
      cases isDescending (word v) with
      | true => rw [if_pos rfl, if_pos rfl, Cel.holds_gt hp hq, Int64.lt_iff_toInt_lt]
      | false =>
        rw [if_neg Bool.false_ne_true, if_neg Bool.false_ne_true, Cel.holds_lt hp hq,
          Int64.lt_iff_toInt_lt]

theorem holds_swapRule {p : Option Int64}
    (hp : member? ms (lit "evictSoftThreshold") = p.map int64.encode) :
    (swapRule sig).holds (.obj ms) = true ↔ (word v = word SignalID.memorySwap → p = none) := by
  have hfield : Cel.eval (.obj ms) (.field [sig]) = some (.str (Utf8.runes (word v).text)) := by
    rw [Cel.eval_field, hsig]
    rfl
  have hname : Utf8.runes (word v).text = "memory.swap".toList ↔
      word v = word SignalID.memorySwap := by
    rw [runes_eq_word (by decide)]
    exact ⟨fun h => congrArg Wire.mk h, fun h => h ▸ rfl⟩
  rw [swapRule, Cel.holds_or, Cel.holds_not_has, hp, Cel.holds_ne hfield rfl, ne_eq,
    Cel.Scalar.str.injEq, hname, Option.isNone_map, Option.isNone_iff_eq_none, imp_iff_not_or]

/-- The rules of a manifest say of a ladder what `checkLadder` does, non-negative values
apart. -/
theorem ladderRules_hold {val : String → Option Int64}
    (hval : ∀ n ∈ rungNames ++ releaseNames, member? ms (lit n) = (val n).map int64.encode) :
    (∀ r ∈ ladderRules sig, r.holds (.obj ms) = true) ↔
      (rungNames.map val).Pairwise (CalmerOpt (isDescending (word v))) ∧
      List.Forall₂ (CalmerOpt (isDescending (word v))) (releaseNames.map val) (rungNames.map val) ∧
      (word v = word SignalID.memorySwap → val "evictSoftThreshold" = none) := by
  have hnone {n : String} (hn : n ∈ rungNames ++ releaseNames) :
      (member? ms (lit n)).isNone = (val n).isNone := by
    rw [hval n hn, Option.isNone_map]
  have hrungs : (∀ p ∈ orderedPairs rungNames, (rungRule sig p.1 p.2).holds (.obj ms) = true) ↔
      (rungNames.map val).Pairwise (CalmerOpt (isDescending (word v))) := by
    rw [List.pairwise_map, ← forall_orderedPairs]
    refine forall₂_congr fun p hp => ?_
    obtain ⟨h1, h2⟩ := mem_of_mem_orderedPairs hp
    have h1 : p.1 ∈ rungNames ++ releaseNames := List.mem_append_left _ h1
    have h2 : p.2 ∈ rungNames ++ releaseNames := List.mem_append_left _ h2
    exact holds_calmRule hsig (by rw [hnone h1, hnone h2]) (hval _ h1) (hval _ h2)
  have hreleases : (∀ p ∈ releaseNames.zip rungNames,
      (releaseRule sig p.2 p.1).holds (.obj ms) = true) ↔
      List.Forall₂ (CalmerOpt (isDescending (word v))) (releaseNames.map val)
        (rungNames.map val) := by
    have hlength : releaseNames.length = rungNames.length := rfl
    rw [List.forall₂_map_left_iff, List.forall₂_map_right_iff, List.forall₂_iff_zip,
      and_iff_right hlength, Prod.forall]
    refine forall₂_congr fun l r => imp_congr_right fun hp => ?_
    have h1 : l ∈ rungNames ++ releaseNames := List.mem_append_right _ (List.of_mem_zip hp).1
    have h2 : r ∈ rungNames ++ releaseNames := List.mem_append_left _ (List.of_mem_zip hp).2
    exact holds_calmRule hsig (by rw [hnone h1, hnone h2, or_comm]) (hval _ h1) (hval _ h2)
  rw [ladderRules_eq]
  simp only [List.forall_mem_append, List.forall_mem_map, List.forall_mem_singleton, hrungs,
    hreleases, and_assoc]
  rw [holds_swapRule hsig (hval "evictSoftThreshold" (by decide))]

/-- Rules and minimums together are `checkLadder`. -/
theorem ladderRules_inOrder {r1 r2 r3 r4 r5 l1 l2 l3 l4 l5 : Option Int64}
    (hval : ∀ n ∈ rungNames ++ releaseNames, member? ms (lit n) =
      (ladderValue [r1, r2, r3, r4, r5] [l1, l2, l3, l4, l5] n).map int64.encode) :
    ((∀ r ∈ [r1, r2, r3, r4, r5], NonNeg r) ∧ (∀ l ∈ [l1, l2, l3, l4, l5], NonNeg l) ∧
      ∀ r ∈ ladderRules sig, r.holds (.obj ms) = true) ↔
      LadderInOrder (word v) [r1, r2, r3, r4, r5] [l1, l2, l3, l4, l5] := by
  rw [ladderRules_hold hsig hval]
  constructor
  · rintro ⟨hr, hl, ho, hc, hs⟩
    exact ⟨hr, hl, ho, hc, hs⟩
  · rintro ⟨hr, hl, ho, hc, hs⟩
    exact ⟨hr, hl, ho, hc, hs⟩

end Ladder

end K3smApis.Budget
