import JsonSchema.Proofs.Schema.Parallel
import JsonSchema.Proofs.Schema.Work

/-!
# Laxer options

A compilation that succeeds is repeated step by step under options that allow a deeper nesting or
are less strict. The two go through the same states, apart from what they record and warn of.
-/

namespace JsonSchema

/-- Options that allow every nesting that others allow, and are strict only where those are. -/
structure CompileOptions.Laxer (options laxer : CompileOptions) : Prop where
  registry : laxer.registry = options.registry
  depth : options.maxDepth ≤ laxer.maxDepth
  strict : laxer.strict = true → options.strict = true

theorem CompileOptions.Laxer.strict_cases {options laxer : CompileOptions}
    (h : options.Laxer laxer) :
    laxer.strict = options.strict ∨ laxer.strict = false ∧ options.strict = true := by
  cases hlax : laxer.strict with
  | true => exact .inl (h.strict hlax).symm
  | false => cases options.strict <;> simp

/-- The one state is the other one with other records, and with its warnings or with none. -/
def Compilation.Echoes (options laxer : CompileOptions) (c d : Compilation) : Prop :=
  ∃ warnings log, d = { c with warnings, log } ∧
    warnings = if laxer.strict = options.strict then c.warnings else []

namespace CompileM

variable {α β : Type} {options laxer : CompileOptions}

/-- Where the first step succeeds, the other one does so too, with the same result and a state
that differs in records and warnings. -/
abbrev Echoed (options laxer : CompileOptions) (x y : CompileM α) : Prop :=
  Matching (Compilation.Echoes options laxer) True x y

/-! ## Steps -/

namespace Echoed

theorem pure (a : α) : Echoed options laxer (pure a) (pure a) := Parallel.pure fun _ => rfl

theorem bind {x y : CompileM α} {f g : α → CompileM β} (h : Echoed options laxer x y)
    (hnext : ∀ a, Echoed options laxer (f a) (g a)) :
    Echoed options laxer (x >>= f) (y >>= g) := by
  refine Parallel.bind h fun a b heq => ?_
  rw [← heq trivial]
  exact hnext a

theorem lift {ε : Type} (fault : ε → CompileFault) (outcome : Except ε α) :
    Echoed options laxer (lift fault outcome) (CompileM.lift fault outcome) :=
  (Parallel.lift fun _ h => h).mono fun _ _ h _ => h.1

theorem reading (site : Site) (outcome : Except KeywordFault α) :
    Echoed options laxer (reading site outcome) (CompileM.reading site outcome) :=
  lift _ outcome

theorem get_bind {f g : Compilation → CompileM α}
    (h : ∀ c warnings log, Echoed options laxer (f c) (g { c with warnings, log })) :
    Echoed options laxer (get >>= f) (get >>= g) := by
  rintro c _ a c' ⟨warnings, log, rfl, hwarnings⟩ hrun
  exact h c warnings log c _ a c' ⟨warnings, log, rfl, hwarnings⟩ hrun

theorem modify {f : Compilation → Compilation}
    (hf : ∀ c warnings log, f { c with warnings, log } = { f c with warnings, log }) :
    Echoed options laxer (modify f) (modify f) := by
  rintro c _ a c' ⟨warnings, log, rfl, hwarnings⟩ hrun
  obtain ⟨-, rfl⟩ := runs_modify.mp hrun
  have hkept := congrArg Compilation.warnings (hf c c.warnings c.log)
  refine ⟨⟨⟩, _, runs_modify.mpr ⟨rfl, rfl⟩, ⟨warnings, log, hf c warnings log, ?_⟩, fun _ => rfl⟩
  exact hwarnings.trans (if_congr Iff.rfl hkept.symm rfl)

theorem record (level : Int) (message : String) :
    Echoed options laxer (record level message) (CompileM.record level message) := by
  rintro c _ a c' ⟨warnings, log, rfl, hwarnings⟩ hrun
  obtain ⟨-, rfl⟩ := runs_modify.mp hrun
  exact ⟨⟨⟩, _, runs_modify.mpr ⟨rfl, rfl⟩, ⟨warnings, _, rfl, hwarnings⟩, fun _ => rfl⟩

theorem warn (hstrict : laxer.strict = options.strict) (message : String) :
    Echoed options laxer (warn message) (CompileM.warn message) := by
  rintro c _ a c' ⟨warnings, log, rfl, hwarnings⟩ hrun
  obtain ⟨-, rfl⟩ := runs_modify.mp (runs_modify_bind.mp hrun)
  rw [if_pos hstrict] at hwarnings
  refine ⟨⟨⟩, _, runs_modify_bind.mpr (runs_modify.mpr ⟨rfl, rfl⟩), ⟨_, _, rfl, ?_⟩, fun _ => rfl⟩
  rw [if_pos hstrict, hwarnings]

theorem unheard (hstrict : laxer.strict ≠ options.strict) (message : String) :
    Echoed options laxer (CompileM.warn message) (Pure.pure ()) := by
  rintro c _ a c' ⟨warnings, log, rfl, hwarnings⟩ hrun
  obtain ⟨-, rfl⟩ := runs_modify.mp (runs_modify_bind.mp hrun)
  rw [if_neg hstrict] at hwarnings
  refine ⟨⟨⟩, _, runs_pure.mpr ⟨rfl, rfl⟩, ⟨_, _, rfl, ?_⟩, fun _ => rfl⟩
  rw [if_neg hstrict, hwarnings]

theorem known (location : String) {f g : Compilation → CompileM NodeId}
    (h : ∀ c warnings log, Echoed options laxer (f c) (g { c with warnings, log })) :
    Echoed options laxer
      (do
        let c ← get
        match c.nodeAt? location with
        | some id => return id
        | none => f c)
      (do
        let c ← get
        match c.nodeAt? location with
        | some id => return id
        | none => g c) := by
  refine get_bind fun c warnings log => ?_
  have hsame : ({ c with warnings, log } : Compilation).nodeAt? location = c.nodeAt? location := rfl
  rw [hsame]
  cases c.nodeAt? location with
  | some id => exact pure id
  | none => exact h c warnings log

theorem reserve (location : String) :
    Echoed options laxer (reserve location) (CompileM.reserve location) := by
  rintro c _ a c' ⟨warnings, log, rfl, hwarnings⟩ hrun
  obtain ⟨ha, rfl⟩ := runs_reserve.mp hrun
  cases ha
  exact ⟨_, _, runs_reserve.mpr ⟨rfl, rfl⟩, ⟨warnings, log, rfl, hwarnings⟩, fun _ => rfl⟩

end Echoed

variable (hlaxer : options.Laxer laxer)

include hlaxer

/-! ## Documents -/

theorem checkDraft_echoed (key : String) (document : Json) :
    Echoed options laxer (checkDraft options key document) (checkDraft laxer key document) := by
  unfold checkDraft
  dsimp only
  split
  case isTrue => exact (Echoed.record _ _).bind fun _ => .pure _
  case isFalse =>
    split
    · exact .throw _ _
    rcases hlaxer.strict_cases with hsame | ⟨-, hstrict⟩
    · rw [hsame]
      split
      · exact .throw _ _
      · exact (Echoed.warn hsame _).bind fun _ => .pure _
    · rw [if_pos hstrict]
      exact .throw _ _

theorem addDocument_echoed (key : String) (document : Json) :
    Echoed options laxer (addDocument options key document) (addDocument laxer key document) :=
  (Echoed.lift _ _).bind fun _ => (Echoed.modify fun _ _ _ => rfl).bind fun _ =>
    (checkDraft_echoed hlaxer key document).bind fun _ => .modify fun _ _ _ => rfl

/-! ## Walks -/

theorem warnUnknown_echoed (site : Site) (schema : Members Json) :
    Echoed options laxer (warnUnknown options site schema) (warnUnknown laxer site schema) := by
  unfold warnUnknown
  induction schema.names.filter isUnknownKeyword with
  | nil => exact .pure _
  | cons keyword rest ih =>
    refine Echoed.bind ?_ fun _ => ih
    rcases hlaxer.strict_cases with hsame | ⟨hlax, hstrict⟩
    · rw [hsame]
      split
      · exact .warn hsame _
      · exact .pure _
    · rw [hlax, hstrict]
      exact .unheard (by simp [hlax, hstrict]) _

omit hlaxer in
theorem readIdentity_echoed (site : Site) (id : NodeId) (schema : Members Json) :
    Echoed options laxer (readIdentity site id schema) (readIdentity site id schema) :=
  (Echoed.reading _ _).bind fun _ => (Echoed.modify fun _ _ _ => rfl).bind fun _ =>
    (Echoed.reading _ _).bind fun _ => (Echoed.modify fun _ _ _ => rfl).bind fun _ => .pure _

theorem compileNew_echoed {compile compile' : CompileChild} (owner : Owner) (site : Site)
    (value : Json)
    (hcompile : ∀ child, Echoed options laxer (compile site child) (compile' site child)) :
    Echoed options laxer (compileNew options (some compile) owner site value)
      (compileNew laxer (some compile') owner site value) := by
  have hplace : ∀ node, Echoed options laxer (place node) (place node) :=
    fun _ => .modify fun _ _ _ => rfl
  cases value with
  | bool b => exact (Echoed.reserve _).bind fun _ => (hplace _).bind fun _ => .pure _
  | obj schema =>
    refine (Echoed.reserve _).bind fun id => Echoed.bind ?_ fun node =>
      (hplace node).bind fun _ => .pure _
    refine (readIdentity_echoed site id schema).bind fun ref => ?_
    have hwarn := (warnUnknown_echoed hlaxer site schema).mono fun _ _ _ => trivial
    exact (Parallel.compileKeywords hcompile schema rfl hwarn id id ref ref
      fun _ => ⟨rfl, rfl, rfl⟩).mono fun _ _ h => h.2.2
  | _ => exact .throw _ _

omit hlaxer in
theorem compileNew_tooDeep (owner : Owner) (site : Site) (value : Json) (y : CompileM NodeId) :
    Echoed options laxer (compileNew options none owner site value) y := by
  unfold compileNew
  cases value <;> exact .throw _ _

/-- A deeper nesting that is allowed is no different at the places that are there already. -/
theorem compileNode_echoed {budget more : Nat} (hbudget : budget ≤ more) (owner : Owner)
    (key pointer : String) (value : Json) :
    Echoed options laxer (compileNode options budget owner key pointer value)
      (compileNode laxer more owner key pointer value) := by
  have hvisit : ∀ {children children' : Option CompileChild} {owner : Owner} {key pointer : String}
      {value : Json}, (∀ site, Echoed options laxer (compileNew options children owner site value)
        (compileNew laxer children' owner site value)) →
      Echoed options laxer (visit options children owner key pointer value)
        (visit laxer children' owner key pointer value) :=
    fun hnew => Echoed.known _ fun _ _ _ => hnew _
  induction budget generalizing more owner key pointer value with
  | zero =>
    cases more with
    | zero => exact hvisit fun _ => compileNew_tooDeep owner _ value _
    | succ more => exact hvisit fun _ => compileNew_tooDeep owner _ value _
  | succ budget ih =>
    obtain ⟨more, rfl⟩ : ∃ n, more = n + 1 := ⟨more - 1, by omega⟩
    exact hvisit fun site => compileNew_echoed hlaxer owner site value fun child =>
      ih (by omega) _ _ _ _

theorem compileEntry_echoed (key pointer : String) (value : Json) :
    Echoed options laxer (compileEntry options key pointer value)
      (compileEntry laxer key pointer value) := by
  refine compileNode_echoed hlaxer ?_ _ _ _ _
  have := hlaxer.depth
  unfold budgetOf
  omega

theorem compileRoot_echoed (key : String) :
    Echoed options laxer (compileRoot options key) (compileRoot laxer key) := by
  refine Echoed.known _ fun c warnings log => ?_
  show Echoed options laxer
    (if (c.contentOf key).isSchema then compileEntry options key "" (c.contentOf key)
      else throw (.rootNotASchema (c.contentOf key).sortName (locationOf key "")))
    (if (c.contentOf key).isSchema then compileEntry laxer key "" (c.contentOf key)
      else throw (.rootNotASchema (c.contentOf key).sortName (locationOf key "")))
  split
  · exact compileEntry_echoed hlaxer key "" _
  · exact .throw _ _

/-! ## References -/

theorem takeDocument_echoed (ref key uri : String) :
    Echoed options laxer (takeDocument options ref key uri) (takeDocument laxer ref key uri) := by
  refine Echoed.get_bind fun c warnings log => ?_
  rw [hlaxer.registry]
  dsimp only
  cases Members.get? c.aliases uri with
  | some target => exact .pure _
  | none =>
    cases Members.get? options.registry uri with
    | some document => exact (addDocument_echoed hlaxer _ _).bind fun _ => .pure _
    | none => exact .throw _ _

theorem targetDocument_echoed (ref key base uri : String) :
    Echoed options laxer (targetDocument options ref key base uri)
      (targetDocument laxer ref key base uri) := by
  unfold targetDocument
  split
  · exact .pure _
  · exact (takeDocument_echoed hlaxer ref key uri).bind fun target =>
      (compileRoot_echoed hlaxer target).bind fun _ => .pure _

omit hlaxer in
theorem anchorTarget_echoed (ref key name : String) :
    Echoed options laxer (anchorTarget ref key name) (anchorTarget ref key name) := by
  refine Echoed.get_bind fun c warnings log => ?_
  dsimp only
  cases c.anchors.lookup (key, name) with
  | some id => exact .pure id
  | none => exact .throw _ _

theorem pointerTarget_echoed (ref key fragment : String) :
    Echoed options laxer (pointerTarget options ref key fragment)
      (pointerTarget laxer ref key fragment) := by
  refine (Echoed.lift _ _).bind fun tokens => Echoed.known _ fun c warnings log =>
    (Echoed.lift _ (Pointer.resolve (c.contentOf key) tokens)).bind fun target => ?_
  unfold compileTarget
  split
  · exact (Echoed.record _ _).bind fun _ => compileEntry_echoed hlaxer _ _ _
  · exact .throw _ _

theorem resolveRef_echoed (ref key : String) :
    Echoed options laxer (resolveRef options ref key) (resolveRef laxer ref key) := by
  refine Echoed.get_bind fun c warnings log => (Echoed.lift _ _).bind fun ⟨uri, fragment⟩ => ?_
  refine (targetDocument_echoed hlaxer ref key (c.baseOf key) uri).bind fun target => ?_
  split
  · exact anchorTarget_echoed ref target fragment
  · exact pointerTarget_echoed hlaxer ref target fragment

theorem resolveFirst_echoed (first : PendingRef) (rest : List PendingRef) :
    Echoed options laxer (resolveFirst options first rest) (resolveFirst laxer first rest) :=
  (Echoed.modify fun _ _ _ => rfl).bind fun _ =>
    (resolveRef_echoed hlaxer first.ref first.key).bind fun _ =>
      Echoed.get_bind fun _ _ _ => (Echoed.record _ _).bind fun _ => .modify fun _ _ _ => rfl

theorem resolvePending_echoed (fuel : Nat) :
    Echoed options laxer (resolvePending options fuel) (resolvePending laxer fuel) := by
  induction fuel with
  | zero => exact .pure _
  | succ fuel ih =>
    refine Echoed.get_bind fun c warnings log => ?_
    dsimp only
    cases c.pending with
    | nil => exact .pure _
    | cons first rest => exact (resolveFirst_echoed hlaxer first rest).bind fun _ => ih

/-! ## Whole compilations -/

theorem compileDocument_echoed (root : Json) :
    Parallel (Compilation.Echoes options laxer) (compileDocument options root)
      (compileDocument laxer root) fun schema other =>
        other = { schema with warnings := other.warnings } ∧
          other.warnings = if laxer.strict = options.strict then schema.warnings else [] := by
  have hlimit : refLimit laxer root = refLimit options root := by
    unfold refLimit
    rw [hlaxer.registry]
  unfold compileDocument
  rw [hlimit]
  refine Parallel.bind (addDocument_echoed hlaxer "" root) fun _ _ _ =>
    Parallel.bind (compileRoot_echoed hlaxer "") fun _ _ _ =>
    Parallel.bind (resolvePending_echoed hlaxer _) fun _ _ _ => ?_
  rintro c _ schema c' ⟨warnings, log, rfl, hwarnings⟩ hrun
  replace hrun := runs_modify_bind.mp (runs_get_bind.mp hrun)
  obtain ⟨hok, rfl⟩ := runs_pure.mp hrun
  cases hok
  exact ⟨_, _, runs_get_bind.mpr (runs_modify_bind.mpr (runs_pure.mpr ⟨rfl, rfl⟩)),
    ⟨warnings, _, rfl, hwarnings⟩, rfl, hwarnings⟩

end CompileM

/-- A compilation that succeeds does so under laxer options, and only the warnings may be fewer. -/
theorem runCompile_laxer {options laxer : CompileOptions} {root : Json} {schema : CompiledSchema}
    (hlaxer : options.Laxer laxer) (h : (runCompile options root).result = .ok schema) :
    ∃ other, (runCompile laxer root).result = .ok other ∧
      other = { schema with warnings := other.warnings } ∧
        other.warnings = if laxer.strict = options.strict then schema.warnings else [] := by
  obtain ⟨c, hrun⟩ := runs_of_result h
  have hstart : Compilation.Echoes options laxer {} {} :=
    ⟨[], [], rfl, (ite_self []).symm⟩
  obtain ⟨other, d, hrun', -, hother⟩ :=
    CompileM.compileDocument_echoed hlaxer root {} {} schema c hstart hrun
  exact ⟨other, congrArg Prod.fst hrun', hother⟩

/--
A laxer configuration never changes a compilation that succeeds. Under every limit on the nesting
that is no smaller, and every strictness that is no greater, the same document with the same
registry is compiled to the same nodes at the same locations and with the same draft. A lenient
compilation that succeeds for a document that can be compiled strictly, under whatever limits, has
no warnings.
-/
theorem laxer_options_agree (options : CompileOptions) (root : Json) (schema : CompiledSchema)
    (h : (runCompile options root).result = .ok schema) :
    (∀ maxDepth strict, options.maxDepth ≤ maxDepth → (strict = true → options.strict = true) →
      ∃ other, (runCompile { options with maxDepth, strict } root).result = .ok other ∧
        other.nodes = schema.nodes ∧ other.locations = schema.locations ∧
          other.draft = schema.draft) ∧
      (options.strict = true → ∀ maxDepth lenient,
        (runCompile { options with maxDepth, strict := false } root).result = .ok lenient →
          lenient.warnings = []) := by
  refine ⟨fun maxDepth strict hdepth hstrict => ?_, fun hstrict maxDepth lenient hlenient => ?_⟩
  · have hlaxer : options.Laxer { options with maxDepth, strict } := ⟨rfl, hdepth, hstrict⟩
    obtain ⟨other, hother, hsame, -⟩ := runCompile_laxer hlaxer h
    exact ⟨other, hother, hsame ▸ rfl, hsame ▸ rfl, hsame ▸ rfl⟩
  · -- Both compilations are followed by a lenient one with the larger of their limits.
    let both : CompileOptions := { options with
      maxDepth := max options.maxDepth maxDepth, strict := false }
    have hfromStrict : options.Laxer both := ⟨rfl, le_max_left _ _, nofun⟩
    have hfromLenient : CompileOptions.Laxer { options with maxDepth, strict := false } both :=
      ⟨rfl, le_max_right _ _, nofun⟩
    obtain ⟨other, hother, -, hnone⟩ := runCompile_laxer hfromStrict h
    obtain ⟨other', hother', -, hkept⟩ := runCompile_laxer hfromLenient hlenient
    cases Except.ok.inj (hother.symm.trans hother')
    rw [if_neg (by simp [both, hstrict])] at hnone
    rw [if_pos rfl] at hkept
    exact hkept.symm.trans hnone

def notedLists : Json :=
  .obj [("x-note", .str "all the way down"), ("type", .str "array"),
    ("items", .obj [("$ref", .str "#")])]

/-- Strictly and with one level to spare it is compiled with a warning, and leniently without. -/
theorem notedLists_laxer : ∃ schema other,
    (runCompile ⟨2, true, []⟩ notedLists).result = .ok schema ∧ schema.warnings.length = 1 ∧
      (runCompile ⟨1000, false, []⟩ notedLists).result = .ok other ∧
        other.nodes = schema.nodes ∧ other.warnings = [] := by
  have hwarnings : (runCompile ⟨2, true, []⟩ notedLists).result.toOption.map (·.warnings.length) =
      some 1 := by
    decide +kernel
  obtain ⟨schema, hschema, hlength⟩ := Option.map_eq_some_iff.mp hwarnings
  have hresult := Except.toOption_eq_some.mp hschema
  obtain ⟨hlaxer, hlenient⟩ := laxer_options_agree ⟨2, true, []⟩ notedLists schema hresult
  obtain ⟨other, hother, hnodes, -⟩ := hlaxer 1000 false (by decide) nofun
  exact ⟨schema, other, hresult, hlength, hother, hnodes, hlenient rfl 1000 other hother⟩

end JsonSchema
