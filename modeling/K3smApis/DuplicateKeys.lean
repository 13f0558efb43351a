import K3smApis.AnnotationPayload

/-!
# The machine that finds repeated keys

`checkDuplicateKeys` keeps a stack of open objects and arrays and, for each object, whether
a key comes next. Here the same loop also records what it took each token for and which
tokens it left, and a pop of the empty stack is a panic. Read against the tree of the value,
every token is taken for what it is.
-/
namespace K3smApis

namespace Json

/-- `u` is `v` or stands somewhere in it. -/
inductive Inside (u : Json) : Json → Prop where
  | self : Inside u u
  | element {v : Json} {vs : List Json} (hv : v ∈ vs) (h : Inside u v) : Inside u (.arr vs)
  | member {m : GoString × Json} {ms : List (GoString × Json)} (hm : m ∈ ms) (h : Inside u m.2) :
      Inside u (.obj ms)

/-- Some object of the value, at any depth, has two members with one key. -/
def RepeatsKey (v : Json) : Prop :=
  ∃ ms, Inside (.obj ms) v ∧ ∃ (i j : ℕ) (k : GoString), i < j ∧
    (ms.map Prod.fst)[i]? = some k ∧ (ms.map Prod.fst)[j]? = some k

theorem KeysDistinct.inside {u v : Json} (h : v.KeysDistinct) (hu : Inside u v) :
    u.KeysDistinct := by
  induction hu with
  | self => exact h
  | element hv _ ih =>
    cases h with
    | arr h => exact ih (h _ hv)
  | member hm _ ih =>
    cases h with
    | obj _ h => exact ih (h _ hm)

theorem exists_equal_of_not_nodup {l : List GoString} (h : ¬l.Nodup) :
    ∃ (i j : ℕ) (k : GoString), i < j ∧ l[i]? = some k ∧ l[j]? = some k := by
  rw [List.nodup_iff_getElem?_ne_getElem?] at h
  push Not at h
  obtain ⟨i, j, hij, hj, heq⟩ := h
  rw [List.getElem?_eq_getElem hj] at heq
  exact ⟨i, j, l[j], hij, heq, List.getElem?_eq_getElem hj⟩

theorem repeatsKey_iff {v : Json} : v.RepeatsKey ↔ ¬v.KeysDistinct := by
  constructor
  · rintro ⟨ms, hms, i, j, k, hij, hi, hj⟩ hdistinct
    cases hdistinct.inside hms with
    | obj hkeys _ =>
      have hlt := (List.getElem?_eq_some_iff.mp hj).1
      exact List.nodup_iff_getElem?_ne_getElem?.mp hkeys i j hij hlt (hi.trans hj.symm)
  · intro h
    by_contra hnone
    refine h ?_
    clear h
    induction v with
    | null => exact .null
    | bool b => exact .bool b
    | num t => exact .num t
    | str s => exact .str s
    | arr vs ih =>
      refine .arr fun v hv => ih v hv ?_
      rintro ⟨ms, hms, hrepeats⟩
      exact hnone ⟨ms, .element hv hms, hrepeats⟩
    | obj ms ih =>
      refine .obj ?_ fun m hm => ih m hm ?_
      · by_contra hkeys
        exact hnone ⟨ms, .self, exists_equal_of_not_nodup hkeys⟩
      · rintro ⟨ns, hns, hrepeats⟩
        exact hnone ⟨ns, .member hm hns, hrepeats⟩

end Json

namespace Budget
open Check GoJson Json

/-- Every number of a value is in the range of float64. -/
def NumbersFit (v : Json) : Prop := ∀ l ∈ tokens v.lexemes, numberFits l = true

theorem tokens_append (a b : List Lexeme) : tokens (a ++ b) = tokens a ++ tokens b :=
  List.filter_append ..

theorem tokens_elementLexemes (vs : List Json) :
    tokens (elementLexemes vs) = vs.flatMap (fun v => tokens v.lexemes) ++ [.closeArr] := by
  induction vs with
  | nil => simp [elementLexemes, tokens]
  | cons v vs ih =>
    rw [elementLexemes, List.flatMap_cons, List.append_assoc, ← ih, ← tokens_append]
    simp [tokens]

theorem tokens_memberLexemes (ms : List (GoString × Json)) :
    tokens (memberLexemes ms) =
      ms.flatMap (fun m => .str m.1 :: tokens m.2.lexemes) ++ [.closeObj] := by
  induction ms with
  | nil => simp [memberLexemes, tokens]
  | cons m ms ih =>
    rw [memberLexemes, List.flatMap_cons, List.append_assoc, ← ih, List.cons_append,
      ← tokens_append]
    simp [tokens]

theorem tokens_arr (vs : List Json) :
    tokens (Json.arr vs).lexemes =
      .openArr :: (vs.flatMap (fun v => tokens v.lexemes) ++ [.closeArr]) := by
  rw [← tokens_elementLexemes]
  cases vs with
  | nil => simp [lexemes, elementLexemes, tokens]
  | cons v vs => simp [lexemes, elementLexemes, tokens]

theorem tokens_obj (ms : List (GoString × Json)) :
    tokens (Json.obj ms).lexemes =
      .openObj :: (ms.flatMap (fun m => .str m.1 :: tokens m.2.lexemes) ++ [.closeObj]) := by
  rw [← tokens_memberLexemes]
  cases ms with
  | nil => simp [lexemes, memberLexemes, tokens]
  | cons m ms => simp [lexemes, memberLexemes, tokens]

theorem keysDistinct_arr {vs : List Json} :
    (Json.arr vs).KeysDistinct ↔ ∀ v ∈ vs, v.KeysDistinct :=
  ⟨fun h => by cases h; assumption, .arr⟩

theorem keysDistinct_obj {ms : List (GoString × Json)} :
    (Json.obj ms).KeysDistinct ↔ (ms.map Prod.fst).Nodup ∧ ∀ m ∈ ms, m.2.KeysDistinct :=
  ⟨fun h => by cases h with | obj hkeys h => exact ⟨hkeys, h⟩, fun h => .obj h.1 h.2⟩

/-- A value may start here, and nothing follows the outermost one. -/
def AtValue (stack : List Frame) (rest : List Lexeme) : Prop :=
  match stack with
  | [] => rest = []
  | f :: _ => (f.obj && f.expectKey) = false

/-- What a token is taken for. -/
inductive Role where
  | key | opening | closing | scalar
  deriving DecidableEq, Repr

/-- How the loop ends. -/
inductive Outcome where
  | accepted
  | repeated (key : GoString)
  | panicked
  deriving DecidableEq, Repr

/-- A run of the loop: how it ended, the tokens it took, and the tokens it did not read. -/
structure Reading where
  outcome : Outcome
  taken : List (Role × Lexeme)
  unread : List Lexeme
  deriving DecidableEq

/-- A run with some tokens taken before it. -/
def Reading.behind (r : Reading) (ps : List (Role × Lexeme)) : Reading :=
  { r with taken := ps ++ r.taken }

/-- What a token is taken for where a value is expected. -/
def valueRole : Lexeme → Role
  | .openObj | .openArr => .opening
  | .closeObj | .closeArr => .closing
  | _ => .scalar

/-- The token loop of `checkDuplicateKeys`. -/
def readTokens : List Frame → List Lexeme → Reading
  | _, [] => ⟨.accepted, [], []⟩
  | [], tok :: toks =>
    if valueRole tok = .closing then ⟨.panicked, [(.closing, tok)], toks⟩
    else if (enterToken [] tok).isEmpty then ⟨.accepted, [(valueRole tok, tok)], toks⟩
    else (readTokens (enterToken [] tok) toks).behind [(valueRole tok, tok)]
  | f :: rest, tok :: toks =>
    if f.obj && f.expectKey then
      if tok = .closeObj then (readTokens (valueDone rest) toks).behind [(.closing, tok)]
      else if tokenString tok ∈ f.keys then ⟨.repeated (tokenString tok), [(.key, tok)], toks⟩
      else (readTokens ({ f with expectKey := false, keys := tokenString tok :: f.keys } :: rest)
        toks).behind [(.key, tok)]
    else if (enterToken (f :: rest) tok).isEmpty then ⟨.accepted, [(valueRole tok, tok)], toks⟩
    else (readTokens (enterToken (f :: rest) tok) toks).behind [(valueRole tok, tok)]

/-- What the loop returns. -/
def Outcome.check : Outcome → Check
  | .accepted => .ok ()
  | .repeated k => .error [.s "key ", .q k, .s " is repeated"]
  | .panicked => .error []

/-- The first token is taken, whatever becomes of it. -/
theorem exists_taken (stack : List Frame) (tok : Lexeme) (toks : List Lexeme) :
    ∃ role more, (readTokens stack (tok :: toks)).taken = (role, tok) :: more := by
  cases stack <;> rw [readTokens] <;> split_ifs <;> exact ⟨_, _, rfl⟩

/-- What `checkDuplicateKeys` returns: a number that no float64 can hold stops it. -/
def Reading.check (r : Reading) : Check :=
  if r.taken.all (fun p => numberFits p.2) then r.outcome.check else .error []

theorem Reading.check_behind {tok : Lexeme} (hfit : numberFits tok = true) (r : Reading)
    (role : Role) : (r.behind [(role, tok)]).check = r.check := by
  have hall : (r.behind [(role, tok)]).taken.all (fun p => numberFits p.2) =
      r.taken.all (fun p => numberFits p.2) := by
    simp only [behind, List.singleton_append, List.all_cons, hfit, Bool.true_and]
  rw [check, check, hall]
  rfl

theorem walkTokens_eq {stack : List Frame} {toks : List Lexeme}
    (hpanic : (readTokens stack toks).outcome ≠ .panicked) :
    walkTokens stack toks = (readTokens stack toks).check := by
  induction toks generalizing stack with
  | nil => rw [walkTokens, readTokens]; rfl
  | cons tok toks ih =>
    by_cases hfit : numberFits tok = true
    · have hcond : ¬numberFits tok = false := by simp [hfit]
      have hstop (outcome : Outcome) (role : Role) :
          (⟨outcome, [(role, tok)], toks⟩ : Reading).check = outcome.check := by
        simp [Reading.check, hfit]
      cases stack with
      | nil =>
        have hclose : ¬valueRole tok = .closing := by
          intro hclose
          rw [readTokens, if_pos hclose] at hpanic
          exact hpanic rfl
        simp only [walkTokens, if_neg hcond]
        rw [readTokens, if_neg hclose] at hpanic ⊢
        split_ifs at hpanic ⊢
        · rw [hstop, Outcome.check]
        · rw [Reading.check_behind hfit, ih hpanic]
      | cons f rest =>
        simp only [walkTokens, if_neg hcond]
        rw [readTokens] at hpanic ⊢
        split_ifs at hpanic ⊢
        · rw [Reading.check_behind hfit, ih hpanic]
        · rw [hstop, Outcome.check]
        · rw [Reading.check_behind hfit, ih hpanic]
        · rw [hstop, Outcome.check]
        · rw [Reading.check_behind hfit, ih hpanic]
    · obtain ⟨role, more, htaken⟩ := exists_taken stack tok toks
      simp [walkTokens, Reading.check, htaken, hfit]

mutual

/-- The tokens of a value, each with what it is. -/
def roles : Json → List (Role × Lexeme)
  | .null => [(.scalar, .null)]
  | .bool b => [(.scalar, .bool b)]
  | .num t => [(.scalar, .num t)]
  | .str s => [(.scalar, .str s)]
  | .arr vs => (.opening, .openArr) :: (elementRoles vs ++ [(.closing, .closeArr)])
  | .obj ms => (.opening, .openObj) :: (memberRoles ms ++ [(.closing, .closeObj)])

def elementRoles : List Json → List (Role × Lexeme)
  | [] => []
  | v :: vs => roles v ++ elementRoles vs

def memberRoles : List (GoString × Json) → List (Role × Lexeme)
  | [] => []
  | m :: ms => (.key, .str m.1) :: (roles m.2 ++ memberRoles ms)

end

theorem map_roles (v : Json) : (roles v).map Prod.snd = tokens v.lexemes := by
  induction v with
  | null => rfl
  | bool b => rfl
  | num t => rfl
  | str s => rfl
  | arr vs ih =>
    have helements : ∀ vs : List Json, (∀ v ∈ vs, (roles v).map Prod.snd = tokens v.lexemes) →
        (elementRoles vs).map Prod.snd = vs.flatMap (fun v => tokens v.lexemes) := by
      intro vs hvs
      induction vs with
      | nil => rfl
      | cons v vs ih =>
        obtain ⟨hv, hvs⟩ := List.forall_mem_cons.mp hvs
        rw [elementRoles, List.map_append, hv, ih hvs, List.flatMap_cons]
    rw [tokens_arr, roles, List.map_cons, List.map_append, helements vs ih]
    rfl
  | obj ms ih =>
    have hmembers : ∀ ms : List (GoString × Json),
        (∀ m ∈ ms, (roles m.2).map Prod.snd = tokens m.2.lexemes) →
        (memberRoles ms).map Prod.snd = ms.flatMap (fun m => .str m.1 :: tokens m.2.lexemes) := by
      intro ms hms
      induction ms with
      | nil => rfl
      | cons m ms ih =>
        obtain ⟨hm, hms⟩ := List.forall_mem_cons.mp hms
        rw [memberRoles, List.map_cons, List.map_append, hm, ih hms, List.flatMap_cons]
        rfl
    rw [tokens_obj, roles, List.map_cons, List.map_append, hmembers ms ih]
    rfl

/-- The loop takes the tokens `ps` for what they are and goes on as `r` when `good` holds;
otherwise it stops among them at a repeated key. -/
def Takes (stack : List Frame) (toks : List Lexeme) (ps : List (Role × Lexeme)) (r : Reading)
    (good : Prop) : Prop :=
  (good → readTokens stack toks = r.behind ps) ∧
    (¬good → ∃ k, (readTokens stack toks).outcome = .repeated k ∧
      (readTokens stack toks).taken <+: ps)

theorem Takes.append {stack mid : List Frame} {toks more : List Lexeme}
    {ps qs : List (Role × Lexeme)} {r : Reading} {good fine : Prop}
    (h : Takes stack toks ps (readTokens mid more) good) (h' : Takes mid more qs r fine) :
    Takes stack toks (ps ++ qs) r (good ∧ fine) := by
  refine ⟨fun hgood => ?_, fun hbad => ?_⟩
  · rw [h.1 hgood.1, h'.1 hgood.2]
    simp only [Reading.behind, List.append_assoc]
  · by_cases hgood : good
    · obtain ⟨k, hk, hfront⟩ := h'.2 fun hfine => hbad ⟨hgood, hfine⟩
      rw [h.1 hgood]
      exact ⟨k, hk, (List.prefix_append_right_inj ps).mpr hfront⟩
    · obtain ⟨k, hk, hfront⟩ := h.2 hgood
      exact ⟨k, hk, hfront.trans (List.prefix_append ps qs)⟩

theorem Takes.congr {stack : List Frame} {toks : List Lexeme} {ps : List (Role × Lexeme)}
    {r : Reading} {good fine : Prop} (h : Takes stack toks ps r good) (hiff : good ↔ fine) :
    Takes stack toks ps r fine :=
  ⟨fun hfine => h.1 (hiff.mpr hfine), fun hbad => h.2 (mt hiff.mp hbad)⟩

theorem takes_nil (stack : List Frame) (toks : List Lexeme) :
    Takes stack toks [] (readTokens stack toks) True :=
  ⟨fun _ => rfl, fun h => absurd trivial h⟩

/-- A token where a value may start, unless it closes the empty stack. -/
theorem takes_value (stack : List Frame) (tok : Lexeme) (toks : List Lexeme) {rest : List Lexeme}
    (h : AtValue stack rest) (hclose : valueRole tok = .closing → stack ≠ [])
    (hend : enterToken stack tok = [] → toks = []) :
    Takes stack (tok :: toks) [(valueRole tok, tok)] (readTokens (enterToken stack tok) toks)
      True := by
  refine ⟨fun _ => ?_, fun hbad => absurd trivial hbad⟩
  have hstep : readTokens stack (tok :: toks) =
      if (enterToken stack tok).isEmpty then ⟨.accepted, [(valueRole tok, tok)], toks⟩
      else (readTokens (enterToken stack tok) toks).behind [(valueRole tok, tok)] := by
    cases stack with
    | nil => rw [readTokens, if_neg fun hc => hclose hc rfl]
    | cons f stack =>
      have hf : (f.obj && f.expectKey) = false := h
      rw [readTokens, if_neg (by simp [hf])]
  rw [hstep]
  split_ifs with hempty
  · have hnil := List.isEmpty_iff.mp hempty
    rw [hnil, hend hnil]
    rfl
  · rfl

/-- The loop takes the tokens of a value for what they are, wherever a value may start. -/
def TakesValue (v : Json) : Prop :=
  ∀ stack rest, AtValue stack rest →
    Takes stack (tokens v.lexemes ++ rest) (roles v) (readTokens (valueDone stack) rest)
      v.KeysDistinct

theorem takesValue_scalar {v : Json} {l : Lexeme} (hv : v.KeysDistinct)
    (htokens : tokens v.lexemes = [l]) (hroles : roles v = [(valueRole l, l)])
    (hrole : valueRole l = .scalar) (henter : ∀ stack, enterToken stack l = valueDone stack) :
    TakesValue v := by
  intro stack rest h
  rw [htokens, hroles, List.singleton_append, ← henter stack]
  refine (takes_value stack l rest h (by rw [hrole]; exact fun hc => by cases hc) ?_).congr
    (iff_of_true trivial hv)
  intro hnil
  cases stack with
  | nil => exact h
  | cons f stack =>
    rw [henter] at hnil
    cases hnil

theorem takes_elements (stack : List Frame) {vs : List Json} (hvs : ∀ v ∈ vs, TakesValue v)
    (rest : List Lexeme) :
    Takes ({} :: stack) (vs.flatMap (fun v => tokens v.lexemes) ++ rest) (elementRoles vs)
      (readTokens ({} :: stack) rest) (∀ v ∈ vs, v.KeysDistinct) := by
  induction vs with
  | nil => exact (takes_nil _ _).congr (by simp)
  | cons v vs ih =>
    obtain ⟨hv, hvs⟩ := List.forall_mem_cons.mp hvs
    rw [List.flatMap_cons, List.append_assoc, elementRoles]
    -- an array expects no key, so the end of an element leaves its frame as it is
    exact ((hv ({} :: stack) _ rfl).append (ih hvs)).congr List.forall_mem_cons.symm

/-- A token where a key is expected. -/
theorem readTokens_key (keys : List GoString) (stack : List Frame) (tok : Lexeme)
    (toks : List Lexeme) :
    readTokens ({ obj := true, expectKey := true, keys } :: stack) (tok :: toks) =
      if tok = .closeObj then (readTokens (valueDone stack) toks).behind [(.closing, tok)]
      else if tokenString tok ∈ keys then ⟨.repeated (tokenString tok), [(.key, tok)], toks⟩
      else
        (readTokens ({ obj := true, expectKey := false, keys := tokenString tok :: keys } :: stack)
          toks).behind [(.key, tok)] := by
  rw [readTokens]
  exact if_pos rfl

/-- A key that an object has not named yet. -/
theorem takes_key (keys : List GoString) (k : GoString) (stack : List Frame)
    (toks : List Lexeme) :
    Takes ({ obj := true, expectKey := true, keys } :: stack) (.str k :: toks) [(.key, .str k)]
      (readTokens ({ obj := true, expectKey := false, keys := k :: keys } :: stack) toks)
      (k ∉ keys) := by
  have hstr : ¬(Lexeme.str k = .closeObj) := fun h => by cases h
  refine ⟨fun hfresh => ?_, fun hbad => ?_⟩
  · rw [readTokens_key, if_neg hstr]
    exact if_neg hfresh
  · have hstop : readTokens ({ obj := true, expectKey := true, keys } :: stack) (.str k :: toks) =
        ⟨.repeated k, [(.key, .str k)], toks⟩ := by
      rw [readTokens_key, if_neg hstr]
      exact if_pos (not_not.mp hbad)
    rw [hstop]
    exact ⟨k, rfl, List.prefix_rfl⟩

/-- The members of an open object that has named `keys`. -/
theorem takes_members (stack : List Frame) {ms : List (GoString × Json)}
    (hms : ∀ m ∈ ms, TakesValue m.2) (keys : List GoString) (rest : List Lexeme) :
    Takes ({ obj := true, expectKey := true, keys } :: stack)
      (ms.flatMap (fun m => .str m.1 :: tokens m.2.lexemes) ++ .closeObj :: rest)
      (memberRoles ms ++ [(.closing, .closeObj)]) (readTokens (valueDone stack) rest)
      ((∀ m ∈ ms, m.1 ∉ keys) ∧ (ms.map Prod.fst).Nodup ∧ ∀ m ∈ ms, m.2.KeysDistinct) := by
  induction ms generalizing keys with
  | nil =>
    refine ⟨fun _ => ?_, fun hbad => absurd (by simp) hbad⟩
    show readTokens _ (.closeObj :: rest) = _
    rw [readTokens_key, if_pos rfl]
    rfl
  | cons m ms ih =>
    obtain ⟨hm, hms⟩ := List.forall_mem_cons.mp hms
    have hkey := takes_key keys m.1 stack (tokens m.2.lexemes ++
      (ms.flatMap (fun m => .str m.1 :: tokens m.2.lexemes) ++ .closeObj :: rest))
    have hvalue := hm ({ obj := true, expectKey := false, keys := m.1 :: keys } :: stack)
      (ms.flatMap (fun m => .str m.1 :: tokens m.2.lexemes) ++ .closeObj :: rest) rfl
    -- the member's value ended: the object expects a key again
    have hall := (hkey.append hvalue).append (ih hms (m.1 :: keys))
    rw [List.flatMap_cons, List.cons_append, List.cons_append, List.append_assoc, memberRoles,
      List.cons_append, List.append_assoc]
    refine hall.congr ?_
    rw [List.forall_mem_cons, List.forall_mem_cons, List.map_cons, List.nodup_cons]
    constructor
    · rintro ⟨⟨hfresh, hv⟩, hkeys, hnodup, hrest⟩
      refine ⟨⟨hfresh, fun n hn hmem => hkeys n hn (.tail _ hmem)⟩, ⟨fun hmem => ?_, hnodup⟩, hv,
        hrest⟩
      obtain ⟨n, hn, heq⟩ := List.mem_map.mp hmem
      exact hkeys n hn (heq ▸ .head _)
    · rintro ⟨⟨hfresh, hkeys⟩, ⟨hnew, hnodup⟩, hv, hrest⟩
      refine ⟨⟨hfresh, hv⟩, fun n hn hmem => ?_, hnodup, hrest⟩
      rcases List.mem_cons.mp hmem with heq | hmem
      · exact hnew (heq ▸ List.mem_map_of_mem hn)
      · exact hkeys n hn hmem

theorem takesValue (v : Json) : TakesValue v := by
  induction v with
  | null => exact takesValue_scalar .null rfl rfl rfl (fun _ => rfl)
  | bool b => exact takesValue_scalar (.bool b) rfl rfl rfl (fun _ => rfl)
  | num t => exact takesValue_scalar (.num t) rfl rfl rfl (fun _ => rfl)
  | str s => exact takesValue_scalar (.str s) rfl rfl rfl (fun _ => rfl)
  | arr vs ih =>
    intro stack rest h
    have hopen := takes_value stack .openArr
      (vs.flatMap (fun v => tokens v.lexemes) ++ .closeArr :: rest) h (fun hc => by cases hc)
      (fun hc => by cases hc)
    have hat : AtValue ({} :: stack) rest := rfl
    have hclose := takes_value ({} :: stack) .closeArr rest hat (fun _ hc => by cases hc)
      fun hnil => by
        cases stack with
        | nil => exact h
        | cons f stack => cases hnil
    have hall := (hopen.append (takes_elements stack ih (.closeArr :: rest))).append hclose
    rw [tokens_arr, roles, List.cons_append, List.append_assoc, List.singleton_append,
      keysDistinct_arr]
    exact hall.congr (by rw [true_and, and_true])
  | obj ms ih =>
    intro stack rest h
    have hopen := takes_value stack .openObj
      (ms.flatMap (fun m => .str m.1 :: tokens m.2.lexemes) ++ .closeObj :: rest) h
      (fun hc => by cases hc) (fun hc => by cases hc)
    have hall := hopen.append (takes_members stack ih [] rest)
    rw [tokens_obj, roles, List.cons_append, List.append_assoc, List.singleton_append,
      keysDistinct_obj]
    exact hall.congr (by simp)

theorem numbersFit_iff {v : Json} :
    NumbersFit v ↔ (roles v).all (fun p => numberFits p.2) = true := by
  rw [NumbersFit, ← map_roles, List.forall_mem_map, List.all_eq_true]

theorem readTokens_of_distinct {v : Json} (h : v.KeysDistinct) :
    readTokens [] (tokens v.lexemes) = ⟨.accepted, roles v, []⟩ := by
  have htakes := takesValue v [] [] rfl
  rw [List.append_nil] at htakes
  rw [htakes.1 h]
  simp [Reading.behind, readTokens]

theorem readTokens_of_repeated {v : Json} (h : ¬v.KeysDistinct) :
    ∃ k, (readTokens [] (tokens v.lexemes)).outcome = .repeated k ∧
      (readTokens [] (tokens v.lexemes)).taken <+: roles v := by
  have htakes := takesValue v [] [] rfl
  rw [List.append_nil] at htakes
  exact htakes.2 h

/-- The token walk accepts a value exactly when no object repeats a key. -/
theorem checkDuplicateKeys_ok {v : Json} :
    checkDuplicateKeys v.lexemes = .ok () ↔ v.KeysDistinct ∧ NumbersFit v := by
  by_cases h : v.KeysDistinct
  · have hread := readTokens_of_distinct h
    rw [checkDuplicateKeys, walkTokens_eq (by simp [hread]), hread, numbersFit_iff, Reading.check]
    split_ifs with hfits <;> simp [h, hfits, Outcome.check]
  · obtain ⟨k, hk, -⟩ := readTokens_of_repeated h
    rw [checkDuplicateKeys, walkTokens_eq (by simp [hk]), Reading.check, hk]
    split_ifs <;> simp [h, Outcome.check]

/-- The run of `checkDuplicateKeys` on the text of one value. -/
def readText (text : GoString) : Option Reading :=
  (lex text).map (fun ls => readTokens [] (tokens ls))

/-- On the text of any JSON value, with the tokens of the decoder as they are: the loop ends
at a repeated key exactly when some object at some depth has two members with one decoded
key, and otherwise takes the tokens of the value and nothing else. It never pops the empty
stack, and it takes every token it reads for what the token is in the value. Unless a number
of the value is outside float64, `checkDuplicateKeys` returns just this. -/
theorem checkDuplicateKeys_reading (text : GoString) (v : Json) (h : Json.parse text = some v) :
    ∃ r, readText text = some r ∧ ((∃ k, r.outcome = .repeated k) ↔ v.RepeatsKey) ∧
      r.outcome ≠ .panicked ∧ r.taken <+: roles v ∧
      (r.outcome = .accepted → r.taken = roles v ∧ r.unread = []) ∧
      (NumbersFit v → ∃ ls, lex text = some ls ∧ checkDuplicateKeys ls = r.outcome.check) := by
  have hlex := Json.parse_eq_some.mp h
  refine ⟨readTokens [] (tokens v.lexemes), by rw [readText, hlex]; rfl, ?_⟩
  rw [repeatsKey_iff]
  have hcheck (hpanic : (readTokens [] (tokens v.lexemes)).outcome ≠ .panicked)
      (hfront : (readTokens [] (tokens v.lexemes)).taken <+: roles v) (hfits : NumbersFit v) :
      ∃ ls, lex text = some ls ∧
        checkDuplicateKeys ls = (readTokens [] (tokens v.lexemes)).outcome.check := by
    refine ⟨v.lexemes, hlex, ?_⟩
    rw [checkDuplicateKeys, walkTokens_eq hpanic, Reading.check, if_pos]
    rw [numbersFit_iff, List.all_eq_true] at hfits
    exact List.all_eq_true.mpr fun p hp => hfits p (hfront.subset hp)
  by_cases hdistinct : v.KeysDistinct
  · have hread := readTokens_of_distinct hdistinct
    have hpanic : Outcome.accepted ≠ .panicked := by decide
    rw [hread] at hcheck ⊢
    refine ⟨?_, hpanic, List.prefix_rfl, fun _ => ⟨rfl, rfl⟩, hcheck hpanic List.prefix_rfl⟩
    refine iff_of_false ?_ (not_not.mpr hdistinct)
    rintro ⟨k, hk⟩
    cases hk
  · obtain ⟨k, hk, hfront⟩ := readTokens_of_repeated hdistinct
    have hpanic : (readTokens [] (tokens v.lexemes)).outcome ≠ .panicked := by
      rw [hk]
      exact fun hc => by cases hc
    refine ⟨iff_of_true ⟨k, hk⟩ hdistinct, hpanic, hfront, fun hc => ?_, hcheck hpanic hfront⟩
    rw [hk] at hc
    cases hc

/-- An object in an array of an object names "b" twice, the second time as an escape; the
string "a" is a key and a value. -/
def nestedRepeat : GoString := lit "\x7b\"a\":[\"a\",\x7b\"b\":1,\"\\u0062\":\"b\"\x7d]\x7d"

def nestedRepeatValue : Json :=
  .obj [(lit "a", .arr [.str (lit "a"),
    .obj [(lit "b", .num (lit "1")), (lit "b", .str (lit "b"))]])]

theorem checkDuplicateKeys_reading_nestedRepeat :
    Json.parse nestedRepeat = some nestedRepeatValue ∧
    ∃ r, readText nestedRepeat = some r ∧
      ((∃ k, r.outcome = .repeated k) ↔ nestedRepeatValue.RepeatsKey) ∧
      r.outcome ≠ .panicked ∧ r.taken <+: roles nestedRepeatValue := by
  have hlex : lex nestedRepeat = some nestedRepeatValue.lexemes := by decide +kernel
  have h := Json.parse_eq_some.mpr hlex
  obtain ⟨r, hr, hiff, hpanic, hfront, -⟩ := checkDuplicateKeys_reading nestedRepeat _ h
  exact ⟨h, r, hr, hiff, hpanic, hfront⟩

end Budget

end K3smApis
