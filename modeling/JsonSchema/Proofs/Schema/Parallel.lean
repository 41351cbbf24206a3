import JsonSchema.Proofs.Schema.Runs
import JsonSchema.Schema.Compile

/-!
# Two walks side by side

A schema object is read at two sites. Where the visits of its subschemas at the first site can be
followed at the second one, reading the whole object at the first site can be followed too: the
keywords are the same, and only faults tell where they stand.
-/

namespace JsonSchema.CompileM

variable {α β γ δ ε : Type} {related : Compilation → Compilation → Prop} {post : α → β → Prop}

/-- Where the first step succeeds, the other one does so too from each related state, and leaves a
related state and a related result. -/
def Parallel (related : Compilation → Compilation → Prop) (x : CompileM α) (y : CompileM β)
    (post : α → β → Prop) : Prop :=
  ∀ c d a c', related c d → Runs x c (.ok a) c' →
    ∃ b d', Runs y d (.ok b) d' ∧ related c' d' ∧ post a b

abbrev Together (related : Compilation → Compilation → Prop) (x : CompileM α) (y : CompileM β) :
    Prop :=
  Parallel related x y fun _ _ => True

/-- The states are related, and where `same` holds the results are the same. -/
abbrev Matching (related : Compilation → Compilation → Prop) (same : Prop) (x y : CompileM α) :
    Prop :=
  Parallel related x y fun a b => same → a = b

def Deaf (related : Compilation → Compilation → Prop) : Prop :=
  ∀ c d warnings log warnings' log', related c d →
    related { c with warnings, log } { d with warnings := warnings', log := log' }

namespace Parallel

/-! ## Steps -/

theorem mono {x : CompileM α} {y : CompileM β} {post' : α → β → Prop}
    (h : Parallel related x y post) (himp : ∀ a b, post a b → post' a b) :
    Parallel related x y post' := by
  intro c d a c' hrelated hrun
  obtain ⟨b, d', hrun', hrelated', hpost⟩ := h c d a c' hrelated hrun
  exact ⟨b, d', hrun', hrelated', himp a b hpost⟩

theorem pure {a : α} {b : β} (h : post a b) : Parallel related (pure a) (pure b) post := by
  intro c d a' c' hrelated hrun
  obtain ⟨ha, rfl⟩ := runs_pure.mp hrun
  cases ha
  exact ⟨b, d, runs_pure.mpr ⟨rfl, rfl⟩, hrelated, h⟩

theorem bind {x : CompileM α} {y : CompileM β} {f : α → CompileM γ} {g : β → CompileM δ}
    {next : γ → δ → Prop} (h : Parallel related x y post)
    (hnext : ∀ a b, post a b → Parallel related (f a) (g b) next) :
    Parallel related (x >>= f) (y >>= g) next := by
  intro c d a c' hrelated hrun
  obtain ⟨a₁, c₁, hx, hf⟩ := runs_bind_ok.mp hrun
  obtain ⟨b₁, d₁, hy, hrelated₁, hpost⟩ := h c d a₁ c₁ hrelated hx
  obtain ⟨b, d', hg, hrelated', hnext⟩ := hnext a₁ b₁ hpost c₁ d₁ a c' hrelated₁ hf
  exact ⟨b, d', runs_bind_ok.mpr ⟨b₁, d₁, hy, hg⟩, hrelated', hnext⟩

theorem throw (e : CompileFault) (y : CompileM β) :
    Parallel related (throw e : CompileM α) y post :=
  fun _ _ _ _ _ hrun => nomatch (runs_throw.mp hrun).1

theorem refused (site : Site) (keyword : String) (problem : KeywordProblem) (f : γ → CompileM α)
    (y : CompileM β) : Parallel related (refuse site keyword problem >>= f) y post := by
  intro c d a c' hrelated hrun
  obtain ⟨_, _, hrefuse, -⟩ := runs_bind_ok.mp hrun
  exact nomatch (runs_throw.mp hrefuse).1

theorem lift {fault fault' : ε → CompileFault} {x y : Except ε α}
    (h : ∀ a, x = .ok a → y = .ok a) :
    Parallel related (lift fault x) (lift fault' y) fun a b => a = b ∧ x = .ok a := by
  intro c d a c' hrelated hrun
  obtain ⟨hx, rfl⟩ := runs_lift_ok.mp hrun
  exact ⟨a, d, runs_lift_ok.mpr ⟨h a hx, rfl⟩, hrelated, rfl, hx⟩

theorem reading (site site' : Site) (outcome : Except KeywordFault α) :
    Parallel related (reading site outcome) (reading site' outcome) Eq :=
  (lift fun _ h => h).mono fun _ _ h => h.1

theorem record (hdeaf : Deaf related) (level level' : Int) (message message' : String) :
    Together related (record level message) (record level' message') := by
  intro c d a c' hrelated hrun
  obtain ⟨-, rfl⟩ := runs_modify.mp hrun
  exact ⟨⟨⟩, _, runs_modify.mpr ⟨rfl, rfl⟩, hdeaf c d _ _ _ _ hrelated, trivial⟩

theorem warn (hdeaf : Deaf related) (message message' : String) :
    Together related (warn message) (warn message') := by
  intro c d a c' hrelated hrun
  replace hrun := runs_modify_bind.mp hrun
  obtain ⟨-, rfl⟩ := runs_modify.mp hrun
  exact ⟨⟨⟩, _, runs_modify_bind.mpr (runs_modify.mpr ⟨rfl, rfl⟩), hdeaf c d _ _ _ _ hrelated,
    trivial⟩

/-! ## Keywords -/

section

variable {same : Prop} {compile compile' : CompileChild} {site site' : Site}
  (hcompile : ∀ child, Matching related same (compile site child) (compile' site' child))
  (schema : Members Json) (keyword : String)

include hcompile

theorem childOf :
    Matching related same (childOf compile site schema keyword)
      (childOf compile' site' schema keyword) := by
  unfold CompileM.childOf
  cases schema.get? keyword with
  | none => exact pure fun _ => rfl
  | some value =>
    exact (hcompile { value, keyword }).bind fun _ _ hid => pure fun hs => congrArg some (hid hs)

theorem compileItems (index : Nat) (items : List Json) :
    Matching related same (compileItems compile site keyword index items)
      (compileItems compile' site' keyword index items) := by
  induction items generalizing index with
  | nil => exact pure fun _ => rfl
  | cons value rest ih =>
    exact (hcompile _).bind fun _ _ hid => (ih (index + 1)).bind fun _ _ hids =>
      pure fun hs => by rw [hid hs, hids hs]

theorem childList :
    Matching related same (childList compile site schema keyword)
      (childList compile' site' schema keyword) := by
  unfold CompileM.childList
  split
  case h_1 => exact pure fun _ => rfl
  case h_2 item items _ => exact compileItems hcompile keyword 0 (item :: items)
  case h_3 => exact throw _ _

theorem compileMembers (members : Members Json) :
    Matching related same (compileMembers compile site keyword members)
      (compileMembers compile' site' keyword members) := by
  induction members with
  | nil => exact pure fun _ => rfl
  | cons member rest ih =>
    exact (hcompile _).bind fun _ _ hid => ih.bind fun _ _ hids =>
      pure fun hs => by rw [hid hs, hids hs]

theorem childMembers :
    Matching related same (childMembers compile site schema keyword)
      (childMembers compile' site' schema keyword) := by
  refine (reading site site' _).bind fun members _ heq => ?_
  subst heq
  exact compileMembers hcompile keyword members

omit hcompile in
theorem readPattern_ok {location : String} (location' : String) {value : Json} {pattern : Pattern}
    (h : readPattern location keyword value = .ok pattern) :
    readPattern location' keyword value = .ok pattern := by
  unfold readPattern at h ⊢
  split at h
  case h_1 source =>
    cases hread : Pattern.read source with
    | ok found => simpa [hread] using h
    | error fault => cases fault <;> simp [hread] at h
  case h_2 => cases h

theorem compilePatternMembers (members : Members Json) :
    Matching related same (compilePatternMembers compile site members)
      (compilePatternMembers compile' site' members) := by
  induction members with
  | nil => exact pure fun _ => rfl
  | cons member rest ih =>
    refine (lift fun pattern => readPattern_ok _ site'.location).bind fun pattern _ hpattern => ?_
    obtain ⟨rfl, -⟩ := hpattern
    exact (hcompile _).bind fun _ _ hid => ih.bind fun _ _ hids =>
      pure fun hs => by rw [hid hs, hids hs]

theorem compileOlderDependencies (done done' : Dependencies) (members : Members Json)
    (hdone : same → done = done') :
    Matching related same (compileOlderDependencies compile site done members)
      (compileOlderDependencies compile' site' done' members) := by
  induction members generalizing done done' with
  | nil => exact pure hdone
  | cons member rest ih =>
    obtain ⟨name, value⟩ := member
    cases value with
    | arr names =>
      refine (reading site site' _).bind fun required _ heq => ih _ _ fun hs => ?_
      rw [hdone hs, heq]
    | _ =>
      refine (hcompile _).bind fun id _ hid => ih _ _ fun hs => ?_
      rw [hdone hs, hid hs]

/-! ## Whole schema objects -/

variable (hdeclaration : site.declaration = site'.declaration)

include hdeclaration

theorem compileOlderItems (items : List Json) :
    Matching related same (compileOlderItems compile site schema items)
      (compileOlderItems compile' site' schema items) := by
  unfold CompileM.compileOlderItems
  rw [hdeclaration]
  dsimp only
  split
  case isTrue => exact refused _ _ _ _ _
  case isFalse =>
    split
    case isTrue => exact refused _ _ _ _ _
    case isFalse =>
      refine (compileItems hcompile "items" 0 items).bind fun first _ hfirst => ?_
      split
      · exact pure fun hs => by rw [hfirst hs]
      · exact (hcompile _).bind fun _ _ hrest => pure fun hs => by rw [hfirst hs, hrest hs]

theorem compileItemSchemas :
    Matching related same (compileItemSchemas compile site schema)
      (compileItemSchemas compile' site' schema) := by
  unfold CompileM.compileItemSchemas
  split
  case h_1 items _ => exact compileOlderItems hcompile schema hdeclaration items
  case h_2 =>
    unfold CompileM.compileLatestItems
    rw [hdeclaration]
    have hrest := childOf hcompile schema "items"
    split
    · exact (childList hcompile schema "prefixItems").bind fun _ _ hfirst =>
        hrest.bind fun _ _ hrest => pure fun hs => by rw [hfirst hs, hrest hs]
    · exact hrest.bind fun _ _ hrest => pure fun hs => by rw [hrest hs]

theorem compileArray :
    Matching related same (compileArray compile site schema)
      (compileArray compile' site' schema) := by
  unfold CompileM.compileArray
  exact (reading site site' _).bind fun _ _ hleast => (reading site site' _).bind fun _ _ hmost =>
    (reading site site' _).bind fun _ _ hunique =>
    (compileItemSchemas hcompile schema hdeclaration).bind fun _ _ hitems =>
    (childOf hcompile schema "contains").bind fun _ _ hcontains =>
    (reading site site' _).bind fun _ _ hfewest => (reading site site' _).bind fun _ _ hlargest =>
    pure fun hs => by rw [hleast, hmost, hunique, hitems hs, hcontains hs, hfewest, hlargest]

omit hdeclaration

theorem compileDependencies :
    Matching related same (compileDependencies compile site schema)
      (compileDependencies compile' site' schema) := by
  unfold CompileM.compileDependencies
  refine (reading site site' _).bind fun listed _ hlisted => ?_
  subst hlisted
  refine (reading site site' _).bind fun _ _ hnames =>
    (childMembers hcompile schema "dependentSchemas").bind fun _ _ hschemas =>
    (reading site site' _).bind fun older _ holder => ?_
  subst holder
  exact compileOlderDependencies hcompile _ _ older fun hs => by rw [hnames, hschemas hs]

theorem compileObject :
    Matching related same (compileObject compile site schema)
      (compileObject compile' site' schema) := by
  unfold CompileM.compileObject
  refine (reading site site' _).bind fun _ _ hrequired =>
    (childMembers hcompile schema "properties").bind fun _ _ hproperties =>
    (reading site site' _).bind fun patterns _ hpatterns => ?_
  subst hpatterns
  exact (compilePatternMembers hcompile patterns).bind fun _ _ hmatched =>
    (childOf hcompile schema "additionalProperties").bind fun _ _ hadditional =>
    (reading site site' _).bind fun _ _ hleast => (reading site site' _).bind fun _ _ hmost =>
    (childOf hcompile schema "propertyNames").bind fun _ _ hnames =>
    (compileDependencies hcompile schema).bind fun _ _ hdependencies => pure fun hs => by
      rw [hrequired, hproperties hs, hmatched hs, hadditional hs, hleast, hmost, hnames hs,
        hdependencies hs]

theorem compileComposition :
    Matching related same (compileComposition compile site schema)
      (compileComposition compile' site' schema) := by
  unfold CompileM.compileComposition
  exact (childList hcompile schema "allOf").bind fun _ _ hall =>
    (childList hcompile schema "anyOf").bind fun _ _ hany =>
    (childList hcompile schema "oneOf").bind fun _ _ hone =>
    (childOf hcompile schema "not").bind fun _ _ hnot =>
    (childOf hcompile schema "if").bind fun _ _ hif =>
    (childOf hcompile schema "then").bind fun _ _ hthen =>
    (childOf hcompile schema "else").bind fun _ _ helse => pure fun hs => by
      rw [hall hs, hany hs, hone hs, hnot hs, hif hs, hthen hs, helse hs]

omit hcompile in
theorem warnUnknown (hdeaf : Deaf related) {options options' : CompileOptions}
    (hstrict : options.strict = options'.strict) :
    Together related (warnUnknown options site schema) (warnUnknown options' site' schema) := by
  unfold CompileM.warnUnknown
  rw [hstrict]
  induction schema.names.filter isUnknownKeyword with
  | nil => exact pure trivial
  | cons keyword rest ih =>
    have hfirst : Together related
        (if options'.strict = true then
          CompileM.warn ("Unknown keyword '" ++ keyword ++ "' at " ++ site.location ++ " is ignored")
        else Pure.pure ())
        (if options'.strict = true then
          CompileM.warn ("Unknown keyword '" ++ keyword ++ "' at " ++ site'.location ++ " is ignored")
        else Pure.pure ()) := by
      split
      · exact warn hdeaf _ _
      · exact pure trivial
    exact hfirst.bind fun _ _ _ => ih

omit hcompile in
theorem readStringKeywords_ok {location : String} (location' : String) {keywords : StringKeywords}
    (h : readStringKeywords location schema = .ok keywords) :
    readStringKeywords location' schema = .ok keywords := by
  simp only [readStringKeywords, Except.bind_eq_ok, Except.pure_eq_ok, Except.mapError_eq_ok] at h ⊢
  obtain ⟨least, hleast, most, hmost, pattern, hpattern, format, hformat, rfl⟩ := h
  refine ⟨least, hleast, most, hmost, pattern, ?_, format, ?_, rfl⟩
  · cases hget : schema.get? "pattern" with
    | none => rwa [hget] at hpattern
    | some value =>
      rw [hget, Option.mapM_some] at hpattern
      obtain ⟨found, hfound, heq⟩ := Except.map_eq_ok.mp hpattern
      exact Except.map_eq_ok.mpr ⟨found, readPattern_ok _ location' hfound, heq⟩
  · cases hget : schema.get? "format" with
    | none => rwa [hget] at hformat
    | some value =>
      rw [hget, Option.mapM_some] at hformat
      cases value <;> first | exact hformat | exact nomatch hformat

include hdeclaration

theorem compileKeywords {options options' : CompileOptions}
    (hwarn : Together related (CompileM.warnUnknown options site schema)
      (CompileM.warnUnknown options' site' schema))
    (id id' : NodeId) (ref ref' : Option String)
    (hsame : same → site.location = site'.location ∧ id = id' ∧ ref = ref') :
    Parallel related (compileKeywords options compile site id ref schema)
      (compileKeywords options' compile' site' id' ref' schema)
      fun a b => a.id = id ∧ b.id = id' ∧ (same → a = b) := by
  unfold CompileM.compileKeywords
  rw [hdeclaration]
  exact (lift fun _ h => h).bind fun _ _ hvalue => (reading site site' _).bind fun _ _ hnumber =>
    (lift fun _ => readStringKeywords_ok schema site'.location).bind fun _ _ hstring =>
    (compileArray hcompile schema hdeclaration).bind fun _ _ harray =>
    (compileObject hcompile schema).bind fun _ _ hobject =>
    (compileComposition hcompile schema).bind fun _ _ hcomposition =>
    (childMembers hcompile schema "$defs").bind fun _ _ _ =>
    (childMembers hcompile schema "definitions").bind fun _ _ _ =>
    hwarn.bind fun _ _ _ => pure ⟨rfl, rfl, fun hs => by
      obtain ⟨hlocation, hid, href⟩ := hsame hs
      rw [hvalue.1, hnumber, hstring.1, harray hs, hobject hs, hcomposition hs, hlocation, hid, href]⟩

end

end Parallel

end JsonSchema.CompileM
