import K3smApis.StrictDecode

/-!
# Which error a report gets

`ParseNodeBudgetReport` first reads the schema on its own, with a decoder that folds the
case of names and keeps the last of several. The relay reports an unknown schema and a
malformed payload differently, so the class of the error matters.
-/
namespace K3smApis.Budget
open Check GoJson Json

variable {α β : Type}

/-- The result is an error that `errors.Is` finds `s` in. -/
def FailsWith (s : BudgetSentinel) (r : Except BudgetError α) : Prop :=
  ∃ e, r = .error e ∧ s ∈ e.wraps

/-- Any other invalid annotation. -/
def FailsInvalid (r : Except BudgetError α) : Prop :=
  FailsWith .budgetAnnotationInvalid r ∧ ¬FailsWith .budgetAnnotationTooLarge r ∧
    ¬FailsWith .unknownBudgetSchema r

/-- Every error of a result wraps one of these lists of sentinels. -/
def Fails (lists : List (List BudgetSentinel)) (r : Except BudgetError α) : Prop :=
  ∀ e, r = .error e → e.wraps ∈ lists

theorem Fails.bind {lists : List (List BudgetSentinel)} {x : Except BudgetError α}
    {k : α → Except BudgetError β} (hx : Fails lists x) (hk : ∀ a, x = .ok a → Fails lists (k a)) :
    Fails lists (x >>= k) := by
  cases x with
  | error e =>
    intro e' h
    cases h
    exact hx e rfl
  | ok a => exact hk a rfl

theorem Fails.mono {lists more : List (List BudgetSentinel)} {r : Except BudgetError α}
    (h : Fails lists r) (hsub : lists ⊆ more) : Fails more r :=
  fun e he => hsub (h e he)

theorem fails_orInvalid (o : Option α) :
    Fails [[.budgetAnnotationInvalid]] (orInvalid o) := by
  intro e h
  cases o with
  | none => cases h; exact List.mem_singleton.mpr rfl
  | some a => cases h

theorem fails_refuseIf (cond : Prop) [Decidable cond] (e : BudgetError) :
    Fails [e.wraps] (refuseIf cond e) := by
  intro e' h
  unfold refuseIf at h
  split_ifs at h
  cases h
  exact List.mem_singleton.mpr rfl

theorem fails_wrapped (sentinels : List BudgetSentinel) (c : Check) :
    Fails [sentinels] (wrapped sentinels c) := by
  intro e h
  cases c with
  | error d => cases h; exact List.mem_singleton.mpr rfl
  | ok _ => cases h

theorem fails_ok (lists : List (List BudgetSentinel)) (a : α) :
    Fails lists (.ok a : Except BudgetError α) := by
  intro e h
  cases h

/-- The probe finds no schema, or one that is not the text 1. -/
def SchemaRefused (value : GoString) : Prop :=
  ∃ v s, lex value = some v.lexemes ∧ probeSchema v = some s ∧ s ≠ some (.num [0x31])

theorem fails_checkSchema (raw : GoString) (s : Option Json) :
    Fails [[.unknownBudgetSchema]] (checkSchema raw s) := by
  unfold checkSchema
  split
  · exact fun e h => by cases h; exact List.mem_singleton.mpr rfl
  · exact fun e h => by cases h; exact List.mem_singleton.mpr rfl
  · exact fails_refuseIf _ _

theorem checkSchema_error (raw : GoString) {s : Option Json} (h : s ≠ some (.num [0x31])) :
    ∃ detail, checkSchema raw s = .error ⟨[.unknownBudgetSchema], detail⟩ := by
  cases hs : checkSchema raw s with
  | ok _ => exact absurd (checkSchema_ok.mp hs) h
  | error e =>
    have hwraps := List.mem_singleton.mp (fails_checkSchema raw s e hs)
    exact ⟨e.detail, by rw [← hwraps]⟩

/-- Every result of the strict decoder. -/
theorem decodeBudgetAnnotation_cases (t : GoType α) (value : GoString) :
    (maxBudgetAnnotationBytes < value.length ∧ ∃ detail, decodeBudgetAnnotation t value =
      .error ⟨[.budgetAnnotationInvalid, .budgetAnnotationTooLarge], detail⟩) ∨
    (value.length ≤ maxBudgetAnnotationBytes ∧ SchemaRefused value ∧
      ∃ detail, decodeBudgetAnnotation t value = .error ⟨[.unknownBudgetSchema], detail⟩) ∨
    (value.length ≤ maxBudgetAnnotationBytes ∧ ¬SchemaRefused value ∧
      (Fails [[.budgetAnnotationInvalid]] <| decodeBudgetAnnotation t value)) := by
  by_cases hlen : maxBudgetAnnotationBytes < value.length
  · refine .inl ⟨hlen, ?_⟩
    unfold decodeBudgetAnnotation
    rw [refuseIf, if_pos hlen]
    exact ⟨_, rfl⟩
  have hstart : decodeBudgetAnnotation t value = (do
      let schema ← orInvalid ((Json.parse value).bind probeSchema)
      checkSchema ((schemaText value).getD []) schema
      let p ← orInvalid (firstValue value)
      let x ← orInvalid (t.decode foldName t.zero p.1)
      refuseIf (p.2 ≠ []) (invalidPayload [.s "trailing data after the payload"])
      let ls ← orInvalid (lex value)
      wrapped [.budgetAnnotationInvalid] (checkDuplicateKeys ls)
      let generic ← orInvalid (genericValue value)
      wrapped [.budgetAnnotationInvalid] (checkExactKeys t [] generic)
      .ok x) := by
    unfold decodeBudgetAnnotation
    rw [refuseIf, if_neg hlen]
    rfl
  rw [hstart]
  refine .inr ?_
  by_cases hrefused : SchemaRefused value
  · obtain ⟨v, s, hlex, hprobe, hs⟩ := id hrefused
    obtain ⟨detail, herror⟩ := checkSchema_error ((schemaText value).getD []) hs
    refine .inl ⟨not_lt.mp hlen, hrefused, detail, ?_⟩
    rw [Json.parse_eq_some.mpr hlex, Option.bind_some, hprobe]
    simp [orInvalid, bind, Except.bind, herror]
  · refine .inr ⟨not_lt.mp hlen, hrefused, ?_⟩
    refine (fails_orInvalid _).bind (fun s hs => ?_)
    obtain ⟨v, hparse, hprobe⟩ := Option.bind_eq_some_iff.mp (orInvalid_ok.mp hs)
    have hone : s = some (.num [0x31]) := by
      by_contra hne
      exact hrefused ⟨v, s, Json.parse_eq_some.mp hparse, hprobe, hne⟩
    rw [checkSchema_ok.mpr hone]
    refine (fails_orInvalid _).bind (fun p _ => ?_)
    refine (fails_orInvalid _).bind (fun x _ => ?_)
    refine (fails_refuseIf _ _).bind (fun _ _ => ?_)
    refine (fails_orInvalid _).bind (fun ls _ => ?_)
    refine (fails_wrapped _ _).bind (fun _ _ => ?_)
    refine (fails_orInvalid _).bind (fun generic _ => ?_)
    exact (fails_wrapped _ _).bind (fun _ _ => fails_ok _ _)

/-- No other field of a report folds to "schema". -/
theorem folds_to_schema {n : GoString}
    (hn : n ∈ lit "schema" :: NodeBudgetObservation.fields.names)
    (hfold : foldName n = foldName (lit "schema")) : n = lit "schema" := by
  have hall : (lit "schema" :: NodeBudgetObservation.fields.names).all (fun n =>
      foldName n ≠ foldName (lit "schema") ∨ n = lit "schema") = true := by decide
  have h := List.all_eq_true.mp hall n hn
  simpa [hfold] using h

/-- A report that is accepted has the current schema. -/
theorem decoded_schema {value : GoString} {r : NodeBudgetReport}
    (h : decodeBudgetAnnotation NodeBudgetReport.goType value = .ok r) :
    r.schema = budgetAnnotationSchema := by
  obtain ⟨-, v, -, hprobe, hdecode, hkeys, -, hexact⟩ := decodeBudgetAnnotation_ok.mp h
  cases v with
  | obj ms =>
    obtain ⟨m, hlast, hone⟩ := Option.map_eq_some_iff.mp (Option.some.inj hprobe)
    obtain ⟨hm, hfold⟩ := List.mem_filter.mp (List.mem_of_getLast? hlast)
    have hname : m.1 = lit "schema" := by
      refine folds_to_schema ?_ (by simpa using hfold)
      have hnames := Fields.mem_names _ (hexact m hm)
      simpa only [Fields.names, List.append_nil] using hnames
    have hmember : member? ms (lit "schema") = some (.num [0x31]) := by
      rw [← hname, member?_of_mem (keysDistinct_obj.mp hkeys).1 hm, hone]
    have hone64 : int64.refDecode (.num [0x31]) = some budgetAnnotationSchema := by decide
    rw [NodeBudgetReport.goType.decode_eq_refDecode NodeBudgetReport.namesDistinct hkeys hexact]
      at hdecode
    unfold NodeBudgetReport.goType at hdecode
    simp only [GoType.refDecode, Fields.refDecode, hmember, Option.map_some, Option.getD_some,
      hone64, Option.bind_some, Option.ite_none_right_eq_some, Option.map_eq_some_iff] at hdecode
    obtain ⟨-, row, ⟨rest, -, rfl⟩, rfl⟩ := hdecode
    rfl
  | null => cases hprobe
  | bool | num | str | arr => cases hprobe

/-- Every result of `ParseNodeBudgetReport`, by the text. -/
theorem parseNodeBudgetReport_cases (value : GoString) :
    (maxBudgetAnnotationBytes < value.length ∧ ∃ detail, parseNodeBudgetReport value =
      .error ⟨[.budgetAnnotationInvalid, .budgetAnnotationTooLarge], detail⟩) ∨
    (value.length ≤ maxBudgetAnnotationBytes ∧ SchemaRefused value ∧
      ∃ detail, parseNodeBudgetReport value = .error ⟨[.unknownBudgetSchema], detail⟩) ∨
    (value.length ≤ maxBudgetAnnotationBytes ∧ ¬SchemaRefused value ∧
      Fails [[.budgetAnnotationInvalid],
          [.budgetAnnotationInvalid, .invalidNodeBudget]]
        (parseNodeBudgetReport value)) := by
  unfold parseNodeBudgetReport
  rcases decodeBudgetAnnotation_cases NodeBudgetReport.goType value with
    ⟨hlen, detail, h⟩ | ⟨hlen, hschema, detail, h⟩ | ⟨hlen, hschema, h⟩
  · exact .inl ⟨hlen, detail, by rw [h]; rfl⟩
  · exact .inr (.inl ⟨hlen, hschema, detail, by rw [h]; rfl⟩)
  · refine .inr (.inr ⟨hlen, hschema, (h.mono (by simp)).bind (fun r hr => ?_)⟩)
    refine Fails.bind ?_ (fun _ _ => fails_ok _ _)
    have hcurrent : r.merged.schema = budgetAnnotationSchema := by
      show r.schema = _
      exact decoded_schema hr
    have hvalidate : r.merged.validate =
        wrapped [.budgetAnnotationInvalid, .invalidNodeBudget]
          r.merged.observation.validate := by
      rw [NodeBudgetReport.validate, refuseIf, if_neg (not_not.mpr hcurrent)]
      rfl
    rw [hvalidate]
    exact (fails_wrapped _ _).mono (by simp)

/-- The classes of results the relay tells apart. -/
inductive ResultClass where
  | success | tooLarge | unknownSchema | invalid

def ResultClass.Holds (r : Except BudgetError α) : ResultClass → Prop
  | .success => ∃ a, r = .ok a
  | .tooLarge => FailsWith .budgetAnnotationTooLarge r
  | .unknownSchema => FailsWith .unknownBudgetSchema r
  | .invalid => FailsInvalid r

theorem failsWith_error {s : BudgetSentinel} {e : BudgetError} :
    FailsWith s (.error e : Except BudgetError α) ↔ s ∈ e.wraps :=
  ⟨fun ⟨_, h, hs⟩ => by cases h; exact hs, fun h => ⟨e, rfl, h⟩⟩

theorem not_failsWith_ok {s : BudgetSentinel} {a : α} :
    ¬FailsWith s (.ok a : Except BudgetError α) := by
  rintro ⟨e, h, -⟩
  cases h

/-- The class of an error is read off the sentinels it wraps. -/
theorem failsWith_of_fails {lists : List (List BudgetSentinel)} {r : Except BudgetError α}
    {s : BudgetSentinel} (h : Fails lists r) (hs : ∀ l ∈ lists, s ∉ l) : ¬FailsWith s r := by
  rintro ⟨e, he, hmem⟩
  exact hs _ (h e he) hmem

theorem parse_tooLarge_iff (value : GoString) :
    FailsWith .budgetAnnotationTooLarge (parseNodeBudgetReport value) ↔
      maxBudgetAnnotationBytes < value.length := by
  rcases parseNodeBudgetReport_cases value with
    ⟨hlen, detail, h⟩ | ⟨hlen, -, detail, h⟩ | ⟨hlen, -, h⟩
  · simp [h, failsWith_error, hlen]
  · simp [h, failsWith_error, hlen]
  · exact iff_of_false (failsWith_of_fails h (by simp)) (not_lt.mpr hlen)

theorem parse_unknownSchema_iff (value : GoString) :
    FailsWith .unknownBudgetSchema (parseNodeBudgetReport value) ↔
      value.length ≤ maxBudgetAnnotationBytes ∧ SchemaRefused value := by
  rcases parseNodeBudgetReport_cases value with
    ⟨hlen, detail, h⟩ | ⟨hlen, hschema, detail, h⟩ | ⟨hlen, hschema, h⟩
  · simp [h, failsWith_error, not_le.mpr hlen]
  · simp [h, failsWith_error, hlen, hschema]
  · exact iff_of_false (failsWith_of_fails h (by simp)) (fun hs => hschema hs.2)

theorem ResultClass.eq_of_holds {r : Except BudgetError α} {c d : ResultClass}
    (hapart : ¬(FailsWith .budgetAnnotationTooLarge r ∧ FailsWith .unknownBudgetSchema r))
    (hc : c.Holds r) (hd : d.Holds r) : c = d := by
  have hok : ∀ s, (∃ a, r = .ok a) → ¬FailsWith s r := by
    rintro s ⟨a, rfl⟩
    exact not_failsWith_ok
  cases c <;> cases d <;> first
    | rfl
    | (simp only [ResultClass.Holds, FailsInvalid] at hc hd
       have := hok .budgetAnnotationTooLarge
       have := hok .unknownBudgetSchema
       have := hok .budgetAnnotationInvalid
       tauto)

/-- A result is in one class. -/
theorem parse_oneClass (value : GoString) :
    ∃! c : ResultClass, c.Holds (parseNodeBudgetReport value) := by
  have hapart : ¬(FailsWith .budgetAnnotationTooLarge (parseNodeBudgetReport value) ∧
      FailsWith .unknownBudgetSchema (parseNodeBudgetReport value)) := by
    rw [parse_tooLarge_iff, parse_unknownSchema_iff]
    omega
  have hsome : ∃ c : ResultClass, c.Holds (parseNodeBudgetReport value) := by
    by_cases hlarge : FailsWith .budgetAnnotationTooLarge (parseNodeBudgetReport value)
    · exact ⟨.tooLarge, hlarge⟩
    by_cases hunknown : FailsWith .unknownBudgetSchema (parseNodeBudgetReport value)
    · exact ⟨.unknownSchema, hunknown⟩
    cases hparse : parseNodeBudgetReport value with
    | ok r => exact ⟨.success, r, rfl⟩
    | error e =>
      refine ⟨.invalid, ⟨e, rfl, ?_⟩, hparse ▸ hlarge, hparse ▸ hunknown⟩
      rcases parseNodeBudgetReport_cases value with
        ⟨-, detail, h⟩ | ⟨hlen, hschema, -, -⟩ | ⟨-, -, h⟩
      · cases hparse.symm.trans h
        exact List.mem_cons_self ..
      · exact absurd ((parse_unknownSchema_iff value).mpr ⟨hlen, hschema⟩) hunknown
      · rcases List.mem_pair.mp (h e hparse) with hw | hw <;> simp [hw]
  obtain ⟨c, hc⟩ := hsome
  exact ⟨c, hc, fun d hd => ResultClass.eq_of_holds hapart hd hc⟩

/-- The exact top-level key occurs at most once. -/
def SchemaAtMostOnce (value : GoString) : Prop :=
  ∀ ms, lex value = some (Json.obj ms).lexemes →
    (ms.filter (fun m => m.1 = lit "schema")).length ≤ 1

/-- The text is null, or an object without the exact key or with another value than 1. -/
def SchemaUnknown (value : GoString) : Prop :=
  ∃ v : Json, lex value = some v.lexemes ∧ (v = .null ∨ ∃ ms, v = .obj ms ∧
    (lit "schema" ∉ ms.map Prod.fst ∨ ∃ w, (lit "schema", w) ∈ ms ∧ w ≠ .num [0x31]))

/-- Errors are classified by the exact schema alone. -/
structure ClassifiedBySchema (value : GoString) : Prop where
  oneClass : ∃! c : ResultClass, c.Holds (parseNodeBudgetReport value)
  tooLarge : FailsWith .budgetAnnotationTooLarge (parseNodeBudgetReport value) ↔
    maxBudgetAnnotationBytes < value.length
  unknownSchema : FailsWith .unknownBudgetSchema (parseNodeBudgetReport value) ↔
    value.length ≤ maxBudgetAnnotationBytes ∧ SchemaUnknown value

/-- The last top-level key that folds to "schema" is 1 exactly when the exact key is. -/
def FoldedSchemaAgrees (value : GoString) : Prop :=
  ∀ ms, lex value = some (Json.obj ms).lexemes →
    ((ms.filter (fun m => foldName m.1 = foldName (lit "schema"))).getLast?.map Prod.snd =
        some (.num [0x31]) ↔
      (lit "schema", .num [0x31]) ∈ ms)

/-- For an object, an unknown exact schema is one that is not 1. -/
theorem exactSchema_unknown_iff {ms : List (GoString × Json)}
    (honce : (ms.filter (fun m => m.1 = lit "schema")).length ≤ 1) :
    (lit "schema" ∉ ms.map Prod.fst ∨ ∃ w, (lit "schema", w) ∈ ms ∧ w ≠ .num [0x31]) ↔
      (lit "schema", .num [0x31]) ∉ ms := by
  constructor
  · rintro (habsent | ⟨w, hw, hne⟩) hone
    · exact habsent (List.mem_map_of_mem hone)
    · have hmem : ∀ {v : Json}, (lit "schema", v) ∈ ms →
          (lit "schema", v) ∈ ms.filter (fun m => m.1 = lit "schema") :=
        fun h => List.mem_filter.mpr ⟨h, by simp⟩
      match hfilter : ms.filter (fun m => m.1 = lit "schema") with
      | [] => exact absurd (hfilter ▸ hmem hw) List.not_mem_nil
      | [m] =>
        have hw' := List.mem_singleton.mp (hfilter ▸ hmem hw)
        have hone' := List.mem_singleton.mp (hfilter ▸ hmem hone)
        exact hne (congrArg Prod.snd (hw'.trans hone'.symm))
      | _ :: _ :: _ => simp [hfilter] at honce
  · intro hne
    by_cases hkey : lit "schema" ∈ ms.map Prod.fst
    · obtain ⟨m, hm, hname⟩ := List.mem_map.mp hkey
      refine .inr ⟨m.2, hname ▸ hm, fun hone => hne ?_⟩
      rw [← hname, ← hone]
      exact hm
    · exact .inl hkey

/-- The two readings of the schema of one text. -/
theorem schemaRefused_iff_unknown {value : GoString} (honce : SchemaAtMostOnce value) :
    (SchemaRefused value ↔ SchemaUnknown value) ↔ FoldedSchemaAgrees value := by
  cases hparse : Json.parse value with
  | none =>
    have hnone : ∀ v : Json, lex value ≠ some v.lexemes := by
      intro v hv
      rw [← Json.parse_eq_some, hparse] at hv
      cases hv
    simp [SchemaRefused, SchemaUnknown, FoldedSchemaAgrees, hnone]
  | some v =>
    have hlex : ∀ w : Json, lex value = some w.lexemes ↔ v = w := by
      intro w
      rw [← Json.parse_eq_some, hparse, Option.some.injEq]
    simp only [SchemaRefused, SchemaUnknown, FoldedSchemaAgrees, SchemaAtMostOnce, hlex] at honce ⊢
    cases v with
    | null => simp [probeSchema]
    | bool | num | str | arr => simp [probeSchema]
    | obj ms =>
      have hunknown := exactSchema_unknown_iff (honce ms rfl)
      simp only [exists_and_left, exists_eq_left', reduceCtorEq, false_or, Json.obj.injEq,
        exists_eq_left', forall_eq', probeSchema, Option.some.injEq, hunknown]
      rw [not_iff_not]

/-- The errors of a text that names the exact key at most once are classified by its exact
schema, except where a key that only folds to "schema" decides otherwise. -/
theorem classifiedBySchema_iff (value : GoString) (honce : SchemaAtMostOnce value) :
    ClassifiedBySchema value ↔
      maxBudgetAnnotationBytes < value.length ∨ FoldedSchemaAgrees value := by
  rw [← schemaRefused_iff_unknown honce]
  constructor
  · intro h
    by_cases hlen : value.length ≤ maxBudgetAnnotationBytes
    · have hboth := (parse_unknownSchema_iff value).symm.trans h.unknownSchema
      exact .inr (by simpa [hlen] using hboth)
    · exact .inl (not_le.mp hlen)
  · intro h
    refine ⟨parse_oneClass value, parse_tooLarge_iff value, ?_⟩
    rw [parse_unknownSchema_iff]
    rcases h with hlen | h
    · exact iff_of_false (fun hs => absurd hs.1 (not_le.mpr hlen))
        (fun hs => absurd hs.1 (not_le.mpr hlen))
    · exact and_congr_right (fun _ => h)

/-- The exact schema is 1, and a later key folds to it. -/
def foldedSchema : GoString := lit "\x7b\"schema\":1,\"Schema\":2\x7d"

def foldedMembers : List (GoString × Json) :=
  [(lit "schema", .num [0x31]), (lit "Schema", .num [0x32])]

theorem lex_foldedSchema : lex foldedSchema = some (Json.obj foldedMembers).lexemes := by
  decide

theorem eq_of_lex {value : GoString} {ms ns : List (GoString × Json)}
    (hm : lex value = some (Json.obj ms).lexemes) (hn : lex value = some (Json.obj ns).lexemes) :
    ms = ns := by
  rw [← Json.parse_eq_some] at hm hn
  rw [hm] at hn
  cases hn
  rfl

theorem foldedSchema_atMostOnce : SchemaAtMostOnce foldedSchema := by
  intro ms hms
  rw [← eq_of_lex lex_foldedSchema hms]
  decide

/-- The folded key hides the exact one: a payload whose exact schema is 1 is reported as one
of an unknown schema. -/
theorem foldedSchema_misclassified :
    foldedSchema.length ≤ maxBudgetAnnotationBytes ∧ SchemaAtMostOnce foldedSchema ∧
      lex foldedSchema = some (Json.obj foldedMembers).lexemes ∧
      FailsWith .unknownBudgetSchema (parseNodeBudgetReport foldedSchema) ∧
      ¬ClassifiedBySchema foldedSchema := by
  have hlen : foldedSchema.length ≤ maxBudgetAnnotationBytes := by decide
  have hrefused : SchemaRefused foldedSchema :=
    ⟨.obj foldedMembers, some (.num [0x32]), lex_foldedSchema, rfl, by simp⟩
  refine ⟨hlen, foldedSchema_atMostOnce, lex_foldedSchema,
    (parse_unknownSchema_iff _).mpr ⟨hlen, hrefused⟩, fun h => ?_⟩
  obtain ⟨-, v, hv, hnull | ⟨ms, rfl, hunknown⟩⟩ :=
    h.unknownSchema.mp ((parse_unknownSchema_iff _).mpr ⟨hlen, hrefused⟩)
  · rw [← Json.parse_eq_some, Json.parse_eq_some.mpr lex_foldedSchema, hnull] at hv
    cases hv
  · obtain rfl := eq_of_lex lex_foldedSchema hv
    have hone := (exactSchema_unknown_iff (foldedSchema_atMostOnce _ lex_foldedSchema)).mp hunknown
    exact hone (List.mem_cons_self ..)

/-- A payload that both types accept. -/
def bareSchema : GoString := lit "\x7b\"schema\":1\x7d"

theorem lex_bareSchema :
    lex bareSchema = some (Json.obj [(lit "schema", .num [0x31])]).lexemes := by
  decide

theorem classifiedBySchema_bareSchema :
    SchemaAtMostOnce bareSchema ∧ ClassifiedBySchema bareSchema := by
  have honce : SchemaAtMostOnce bareSchema := by
    intro ms hms
    rw [← eq_of_lex lex_bareSchema hms]
    decide
  refine ⟨honce, (classifiedBySchema_iff _ honce).mpr (.inr ?_)⟩
  intro ms hms
  rw [← eq_of_lex lex_bareSchema hms]
  exact iff_of_true rfl (List.mem_cons_self ..)

end K3smApis.Budget
