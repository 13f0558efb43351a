import K3smApis.SlashPath

/-!
# Artifact file paths

`ValidatePath` of `artifact/v1/path.go`: the checks in the order of the source, and the
grammar they accept. A path that is accepted names a file below any root it is joined to.
-/
namespace K3smApis.Artifact
open Check SlashPath

def maxPathDepth : ℕ := 8
def maxComponentBytes : ℕ := 255
def maxPathBytes : ℕ := maxPathDepth * (maxComponentBytes + 1)

/-- The sentinel errors. -/
inductive PathSentinel where
  | emptyPath | absolutePath | pathCharset | pathComponent | reservedComponent | pathTooLong
  | pathDepth | componentTooLong | codeFile | duplicatePath | caseCollision | fileDirConflict
  | tooManyPaths
  deriving DecidableEq, Repr

/-- An error: the sentinel it wraps and the message in front of it. -/
structure PathError where
  sentinel : PathSentinel
  detail : Msg
  deriving DecidableEq, Repr

def codeExtensions : List GoString :=
  [".py", ".pyc", ".bin", ".pt", ".pth", ".pkl", ".pickle", ".ckpt", ".so", ".dylib"].map lit

/-- A byte a component may have. -/
def nameByte (b : UInt8) : Bool :=
  (0x61 ≤ b && b ≤ 0x7a) || (0x41 ≤ b && b ≤ 0x5a) || (0x30 ≤ b && b ≤ 0x39) ||
    b = 0x2e || b = 0x5f || b = 0x2d

def pathByte (b : UInt8) : Bool := nameByte b || b = slash

/-- `strings.ToLower`, of a text that is ASCII by the time it is called. -/
def toLower (s : GoString) : GoString := foldCase s

/-- The loop over the bytes. -/
def checkCharset (p : GoString) : Except PathError Unit :=
  match p.findIdx? (fun b => !pathByte b) with
  | some i => .error ⟨.pathCharset, [.q p, .s ": byte ", .d i, .s ": "]⟩
  | none => .ok ()

/-- The switch on one component. -/
def checkComponent (p c : GoString) : Except PathError Unit :=
  if c = [] ∨ c = dot ∨ c = dotDot then .error ⟨.pathComponent, [.q p, .s ": "]⟩
  else if lit ".." <+: c ∨ lit "._" <+: c then
    .error ⟨.reservedComponent, [.q p, .s ": component ", .q c, .s ": "]⟩
  else if maxComponentBytes < c.length then
    .error ⟨.componentTooLong, [.q p, .s ": component of ", .d c.length, .s " bytes, at most ",
      .d maxComponentBytes, .s ": "]⟩
  else .ok ()

/-- The loop over the extensions. -/
def checkExtension (p last : GoString) : Except PathError Unit :=
  match codeExtensions.find? (fun ext => ext <:+ toLower last) with
  | some ext => .error ⟨.codeFile, [.q p, .s ": ", .s " (", .str ext, .s ")"]⟩
  | none => .ok ()

def validatePath (p : GoString) : Except PathError Unit := do
  refuseIf (maxPathBytes < p.length)
    ⟨.pathTooLong, [.s "path of ", .d p.length, .s " bytes, at most ", .d maxPathBytes, .s ": "]⟩
  refuseIf (p = []) ⟨.emptyPath, []⟩
  refuseIf (p.head? = some slash) ⟨.absolutePath, [.q p, .s ": "]⟩
  checkCharset p
  refuseIf (maxPathDepth < p.count slash + 1)
    ⟨.pathDepth, [.q p, .s ": ", .d (p.count slash + 1 : ℕ), .s " components, at most ",
      .d maxPathDepth, .s ": "]⟩
  (elements p).forM (checkComponent p)
  checkExtension p ((elements p).getLastD [])

theorem checkCharset_ok {p : GoString} : checkCharset p = .ok () ↔ ∀ b ∈ p, pathByte b = true := by
  unfold checkCharset
  cases hfind : p.findIdx? (fun b => !pathByte b) with
  | none => simpa using List.findIdx?_eq_none_iff.mp hfind
  | some i =>
    obtain ⟨hi, hbyte, -⟩ := List.findIdx?_eq_some_iff_getElem.mp hfind
    refine iff_of_false (by simp) (fun h => ?_)
    simp [h _ (List.getElem_mem hi)] at hbyte

/-- A component that is accepted, apart from its bytes. -/
structure Component (c : GoString) : Prop where
  ne_nil : c ≠ []
  ne_dot : c ≠ dot
  noParent : ¬lit ".." <+: c
  noDouble : ¬lit "._" <+: c
  length : c.length ≤ maxComponentBytes

theorem checkComponent_ok {p c : GoString} : checkComponent p c = .ok () ↔ Component c := by
  have hparent : c = dotDot → lit ".." <+: c := by
    rintro rfl
    exact List.prefix_refl _
  unfold checkComponent
  split_ifs with h1 h2 h3
  · refine iff_of_false (by simp) (fun h => ?_)
    rcases h1 with h1 | h1 | h1
    · exact h.ne_nil h1
    · exact h.ne_dot h1
    · exact h.noParent (hparent h1)
  · exact iff_of_false (by simp) (fun h => h2.elim h.noParent h.noDouble)
  · exact iff_of_false (by simp) (fun h => absurd h.length (not_le.mpr h3))
  · rw [not_or] at h1 h2
    rw [not_or] at h1
    exact iff_of_true rfl ⟨h1.1, h1.2.1, h2.1, h2.2, not_lt.mp h3⟩

/-- The name of a file with a code extension, in whatever case. -/
def CodeFile (name : GoString) : Prop := ∃ ext ∈ codeExtensions, ext <:+ toLower name

theorem checkExtension_ok {p last : GoString} :
    checkExtension p last = .ok () ↔ ¬CodeFile last := by
  unfold checkExtension CodeFile
  cases hfind : codeExtensions.find? (fun ext => ext <:+ toLower last) with
  | none => simpa using List.find?_eq_none.mp hfind
  | some ext =>
    have hmem := List.mem_of_find?_eq_some hfind
    have hsuffix := List.find?_some hfind
    exact iff_of_false (by simp) (not_not.mpr ⟨ext, hmem, by simpa using hsuffix⟩)

/-- The checks, by the elements of the path. -/
theorem validatePath_ok {p : GoString} :
    validatePath p = .ok () ↔ p.length ≤ maxPathBytes ∧ p ≠ [] ∧ p.head? ≠ some slash ∧
      (∀ b ∈ p, pathByte b = true) ∧ (elements p).length ≤ maxPathDepth ∧
      (∀ c ∈ elements p, Component c) ∧ ¬CodeFile ((elements p).getLastD []) := by
  unfold validatePath
  simp only [bind_ok, refuseIf_ok, not_lt, checkCharset_ok, forM_ok, checkComponent_ok,
    checkExtension_ok, (elements_spec p).2, ne_eq]

/-- The components of a path, from the first to the file name. -/
structure Grammar (cs : List GoString) : Prop where
  ne_nil : cs ≠ []
  depth : cs.length ≤ maxPathDepth
  component : ∀ c ∈ cs, Component c
  bytes : ∀ c ∈ cs, ∀ b ∈ c, nameByte b = true
  file : ∀ name ∈ cs.getLast?, ¬CodeFile name

theorem nameByte_ne_slash {b : UInt8} (h : nameByte b = true) : b ≠ slash := by
  rintro rfl
  exact absurd h (by decide)

theorem Grammar.no_slash {cs : List GoString} (h : Grammar cs) : ∀ c ∈ cs, slash ∉ c :=
  fun c hc hmem => nameByte_ne_slash (h.bytes c hc slash hmem) rfl

theorem Grammar.isName {cs : List GoString} (h : Grammar cs) : ∀ c ∈ cs, IsName c := by
  intro c hc
  refine ⟨(h.component c hc).ne_nil, (h.component c hc).ne_dot, ?_, h.no_slash c hc⟩
  rintro rfl
  exact (h.component _ hc).noParent (List.prefix_refl _)

/-- The whole length is within its bound when every component is. -/
theorem Grammar.length_joined_le {cs : List GoString} (h : Grammar cs) :
    (joined cs).length ≤ maxPathBytes := by
  have hsum : (cs.map (fun c => c.length + 1)).sum ≤ cs.length * (maxComponentBytes + 1) := by
    have hle := List.sum_le_card_nsmul (cs.map (fun c => c.length + 1)) (maxComponentBytes + 1) (by
      intro n hn
      obtain ⟨c, hc, rfl⟩ := List.mem_map.mp hn
      exact Nat.succ_le_succ (h.component c hc).length)
    simpa using hle
  have hlength := length_joined h.ne_nil
  have hdepth : cs.length * (maxComponentBytes + 1) ≤ maxPathBytes :=
    Nat.mul_le_mul_right _ h.depth
  omega

theorem validatePath_iff_grammar {p : GoString} :
    validatePath p = .ok () ↔ ∃ cs, p = joined cs ∧ Grammar cs := by
  rw [validatePath_ok]
  constructor
  · rintro ⟨-, -, -, hbytes, hdepth, hcomponents, hfile⟩
    refine ⟨elements p, (joined_elements p).symm, elements_ne_nil p, hdepth, hcomponents, ?_, ?_⟩
    · intro c hc b hb
      have hne : b ≠ slash := fun h => (elements_spec p).1 c hc (h ▸ hb)
      have hbyte := hbytes b (joined_elements p ▸ mem_joined_of_mem hc hb)
      simpa [pathByte, hne] using hbyte
    · intro name hname
      rwa [List.getLastD_eq_getLast?, Option.mem_def.mp hname] at hfile
  · rintro ⟨cs, rfl, h⟩
    obtain ⟨c, cs', rfl⟩ := List.exists_cons_of_ne_nil h.ne_nil
    have hc := h.isName c (by simp)
    have hrooted := isRooted_joined cs' hc.ne_nil hc.no_slash
    rw [elements_joined h.no_slash h.ne_nil]
    refine ⟨h.length_joined_le, ?_, by simpa [isRooted] using hrooted, ?_, h.depth, h.component, ?_⟩
    · intro hnil
      have hlength := length_joined h.ne_nil
      rw [hnil] at hlength
      have hpos := List.length_pos_iff.mpr hc.ne_nil
      simp at hlength
      omega
    · intro b hb
      rcases mem_joined hb with rfl | ⟨e, he, hbe⟩
      · rfl
      · simp [pathByte, h.bytes e he b hbe]
    · have hlast := List.getLast?_eq_some_getLast h.ne_nil
      rw [List.getLastD_eq_getLast?, hlast]
      exact h.file _ hlast

/-- The paths that are accepted: one to eight components of 1 to 255 bytes out of a closed
set, none of them "." or starting with ".." or "._", and a file name without a code
extension. Such a path is clean and relative, and stays below every root. -/
theorem validatePath_grammar (p : GoString) :
    (validatePath p = .ok () ↔ ∃ cs : List GoString, p = joined cs ∧
      1 ≤ cs.length ∧ cs.length ≤ 8 ∧
      (∀ c ∈ cs, 1 ≤ c.length ∧ c.length ≤ 255 ∧ (∀ b ∈ c, nameByte b = true) ∧
        c ≠ lit "." ∧ ¬lit ".." <+: c ∧ ¬lit "._" <+: c) ∧
      ∀ name ∈ cs.getLast?, ∀ ext ∈ codeExtensions, ¬ext <:+ toLower name) ∧
    (validatePath p = .ok () →
      clean p = p ∧ isRooted p = false ∧
        ∀ root, clean root = root → Below root (join [root, p])) := by
  refine ⟨validatePath_iff_grammar.trans (exists_congr fun cs => and_congr_right fun _ => ?_), ?_⟩
  · constructor
    · intro h
      refine ⟨List.length_pos_iff.mpr h.ne_nil, h.depth, fun c hc => ?_,
        fun name hname ext hext hs =>
        h.file name hname ⟨ext, hext, hs⟩⟩
      have hcomponent := h.component c hc
      exact ⟨List.length_pos_iff.mpr hcomponent.ne_nil, hcomponent.length, h.bytes c hc,
        hcomponent.ne_dot, hcomponent.noParent, hcomponent.noDouble⟩
    · rintro ⟨hpos, hdepth, hcs, hfile⟩
      refine ⟨List.length_pos_iff.mp hpos, hdepth, fun c hc => ?_, fun c hc => (hcs c hc).2.2.1,
        fun name hname ⟨ext, hext, hs⟩ => hfile name hname ext hext hs⟩
      obtain ⟨hne, hlength, -, hdot, hparent, hdouble⟩ := hcs c hc
      exact ⟨List.length_pos_iff.mp hne, hdot, hparent, hdouble, hlength⟩
  · intro h
    obtain ⟨cs, rfl, hcs⟩ := validatePath_iff_grammar.mp h
    have hclean := clean_joined hcs.ne_nil hcs.isName
    refine ⟨hclean, ?_, fun root hroot => ?_⟩
    · have hhead := (validatePath_ok.mp h).2.2.1
      simpa [isRooted] using hhead
    · have hne : root ≠ [] := hroot ▸ clean_ne_nil root
      refine ⟨cs, hcs.ne_nil, hcs.isName, form_join hne ?_ (List.cons_ne_nil _ _) ?_ hcs.ne_nil
        hcs.isName⟩
      · simpa using joined_ne_nil hcs.ne_nil hcs.isName
      · exact List.intercalate_singleton

theorem validatePath_grammar_weights :
    validatePath (lit "model/weights.safetensors") = .ok () ∧
      Below (lit "/var/lib") (join [lit "/var/lib", lit "model/weights.safetensors"]) := by
  have h : validatePath (lit "model/weights.safetensors") = .ok () := by decide +kernel
  exact ⟨h, ((validatePath_grammar _).2 h).2.2 _ (by decide +kernel)⟩

end K3smApis.Artifact
