import JsonSchema.Evaluation.Shown
import JsonSchema.Proofs.Evaluation.Reach
import JsonSchema.Schema.Compile

/-!
# What an evaluation that is written out comes to

Writing the messages out changes no violation: the outcome is the same, unless a message has to
show an integer that has no text. So an evaluation has its violations, or is too deep, or it meets
one of two things: a string that cannot be tried as an expression, or such an integer.
-/

namespace JsonSchema

/-! ## With texts and without -/

/-- The first outcome is the second one, or an integer has no text. -/
abbrev Shows {α : Type} (x y : Evaluated α) : Prop := Except.UpTo .noText x y

/-- A step that only writes messages out may come before the others. -/
theorem Shows.write {α : Type} {x y : Evaluated α} {write : Evaluated Unit}
    (hwrite : write = .ok () ∨ write = .error .noText) (h : Shows x y) :
    Shows (write >>= fun _ => x) y := by
  rcases hwrite with rfl | rfl
  · exact h
  · exact .inl rfl

namespace SchemaNode

variable {node : SchemaNode} {schema : CompiledSchema} {options : EvaluationOptions}
  {value : Json} {path : Path}

section

variable {apply apply' : Apply}
  (happly : ∀ id value path, Shows (apply id value path) (apply' id value path))

include happly

theorem descend_shows (applicator : Applicator) (child : NodeId) :
    Shows (node.descend schema apply applicator child value path)
      (node.descend schema apply' applicator child value path) := by
  unfold descend
  split
  · exact .refl _ _
  · exact happly child value path

omit happly in
theorem collect_shows {α : Type} {check check' : α → Evaluated Violations} {list : List α}
    (h : ∀ a, Shows (check a) (check' a)) : Shows (collect check list) (collect check' list) := by
  induction list with
  | nil => exact .refl _ _
  | cons a rest ih => exact (h a).bind fun _ => ih.bind fun _ => .refl _ _

/-! ### Arrays -/

theorem itemViolations_shows (index : Nat) (item : Json) :
    Shows (node.itemViolations schema apply path index item)
      (node.itemViolations schema apply' path index item) := by
  unfold itemViolations
  split
  · exact descend_shows happly _ _
  · exact descend_shows happly _ _
  · exact .refl _ _

theorem countMatches_shows (child : NodeId) (index : Nat) (items : List Json) :
    Shows (countMatches apply child path index items)
      (countMatches apply' child path index items) := by
  induction items generalizing index with
  | nil => exact .refl _ _
  | cons item rest ih => exact (happly _ _ _).bind fun _ => (ih _).bind fun _ => .refl _ _

theorem containsViolations_shows (items : List Json) :
    Shows (node.containsViolations apply path items)
      (node.containsViolations apply' path items) := by
  unfold containsViolations
  split
  · exact .refl _ _
  · exact (countMatches_shows happly _ 0 items).bind fun _ => .refl _ _

theorem arrayShown_shows (items : List Json) :
    Shows (node.arrayShown schema apply path items)
      (node.arrayViolations schema apply' path items) :=
  (collect_shows fun _ => itemViolations_shows happly _ _).bind fun _ =>
    (containsViolations_shows happly items).bind fun _ =>
      Shows.write (writeOut_cases node _ _) (.refl _ _)

/-! ### Objects -/

theorem propertyViolations_shows (name : String) :
    Shows (node.propertyViolations schema apply path name value)
      (node.propertyViolations schema apply' path name value) := by
  have hnamed : ∀ path, Shows (node.namedViolations schema apply name value path)
      (node.namedViolations schema apply' name value path) := by
    intro path
    unfold namedViolations
    split
    · exact descend_shows happly _ _
    · exact .refl _ _
  have hadditional : ∀ covered path,
      Shows (node.additionalViolations schema apply covered name value path)
        (node.additionalViolations schema apply' covered name value path) := by
    intro covered path
    unfold additionalViolations
    split
    · exact descend_shows happly _ _
    · exact .refl _ _
  exact (hnamed _).bind fun _ => (collect_shows fun _ => descend_shows happly _ _).bind fun _ =>
    (hadditional _ _).bind fun _ => .refl _ _

theorem objectViolations_shows (members : Members Json) :
    Shows (node.objectViolations schema apply path members)
      (node.objectViolations schema apply' path members) := by
  have hname : ∀ name, Shows (node.nameViolations schema apply path name)
      (node.nameViolations schema apply' path name) := by
    intro name
    unfold nameViolations
    split
    · exact .refl _ _
    · exact descend_shows happly _ _
  have hdependent : ∀ trigger child,
      Shows (node.dependentViolations schema apply path members trigger child)
        (node.dependentViolations schema apply' path members trigger child) := by
    intro trigger child
    unfold dependentViolations
    split
    · exact descend_shows happly _ _
    · exact .refl _ _
  exact (collect_shows fun _ => propertyViolations_shows happly _).bind fun _ =>
    (collect_shows hname).bind fun _ => (collect_shows fun _ => hdependent _ _).bind fun _ =>
      .refl _ _

/-! ### Compositions -/

theorem failedBranches_shows (branches : List NodeId) :
    Shows (failedBranches apply value path branches)
      (failedBranches apply' value path branches) := by
  induction branches with
  | nil => exact .refl _ _
  | cons branch rest ih =>
    refine (happly _ _ _).bind fun found => ?_
    split
    · exact .refl _ _
    · split
      · exact .refl _ _
      · exact ih.bind fun _ => .refl _ _

theorem branchOutcomes_shows (branches : List NodeId) :
    Shows (branchOutcomes apply value path branches)
      (branchOutcomes apply' value path branches) := by
  induction branches with
  | nil => exact .refl _ _
  | cons branch rest ih => exact (happly _ _ _).bind fun _ => ih.bind fun _ => .refl _ _

theorem conditionViolations_shows :
    Shows (node.conditionViolations schema apply value path)
      (node.conditionViolations schema apply' value path) := by
  unfold conditionViolations
  split
  · exact .refl _ _
  · refine (happly _ _ _).bind fun found => ?_
    dsimp only
    split
    · exact descend_shows happly _ _
    · exact .refl _ _

theorem compositionViolations_shows :
    Shows (node.compositionViolations schema apply value path)
      (node.compositionViolations schema apply' value path) := by
  have hnot : Shows (node.notViolations apply value path) (node.notViolations apply' value path) := by
    unfold notViolations
    split
    · exact .refl _ _
    · exact (happly _ _ _).bind fun _ => .refl _ _
  exact (collect_shows fun _ => descend_shows happly _ _).bind fun _ =>
    ((failedBranches_shows happly _).bind fun _ => .refl _ _).bind fun _ =>
    ((branchOutcomes_shows happly _).bind fun _ => .refl _ _).bind fun _ =>
    hnot.bind fun _ => (conditionViolations_shows happly).bind fun _ => .refl _ _

/-! ### Whole nodes -/

theorem shownViolations_shows :
    Shows (node.shownViolations schema options apply value path)
      (node.violations schema options apply' value path) := by
  unfold shownViolations SchemaNode.violations
  cases node.boolean with
  | some b => cases b <;> exact .refl _ _
  | none =>
    have hreferred : Shows (node.refViolations apply value path)
        (node.refViolations apply' value path) := by
      unfold refViolations
      split
      · exact happly _ _ _
      · exact .refl _ _
    have hinner : Shows (node.innerShown schema apply value path)
        (node.innerViolations schema apply' value path) := by
      cases value with
      | arr items => exact arrayShown_shows happly items
      | obj members => exact objectViolations_shows happly members
      | _ => exact .refl _ _
    exact hreferred.bind fun _ => Shows.write (node.writeOwn_cases value) <|
      (Except.UpTo.refl _ _).bind fun _ =>
      hinner.bind fun _ => (compositionViolations_shows happly).bind fun _ => .refl _ _

end

end SchemaNode

namespace CompiledSchema

variable {schema : CompiledSchema} {options : EvaluationOptions}

def visitShown (schema : CompiledSchema) (options : EvaluationOptions) (budget : Nat)
    (visit : Visit) : Evaluated Violations :=
  schema.evaluateShown options budget visit.id visit.value visit.path

theorem evaluateShown_shows (schema : CompiledSchema) (options : EvaluationOptions) (budget : Nat)
    (id : NodeId) (value : Json) (path : Path) :
    Shows (schema.evaluateShown options budget id value path)
      (schema.evaluate options budget id value path) := by
  induction budget generalizing id value path with
  | zero => exact .refl _ _
  | succ budget ih =>
    simp only [evaluateShown, evaluate]
    cases schema.node? id with
    | some node => exact SchemaNode.shownViolations_shows ih
    | none => exact .refl _ _

/-- What is written out is what `validate` finds, if every message has a text. -/
theorem validateShown_shows (schema : CompiledSchema) (options : EvaluationOptions)
    (instance_ : Json) :
    Shows (schema.validateShown options instance_) (schema.validate options instance_) :=
  evaluateShown_shows schema options _ rootId instance_ []

end CompiledSchema

/-! ## Integers that a message shows -/

theorem Meets.first {α β : Type} {good : β → Prop} {fair : EvaluationFault → Prop}
    {x : Evaluated α} {f : α → Evaluated β} (h : Meets good fair (x >>= f)) :
    Meets (fun a => Meets good fair (f a)) fair x := by
  cases x with
  | ok a => exact h
  | error fault => exact h

theorem SchemaNode.Applies.hasText {node : SchemaNode} {value value' : Json} {path path' : Path}
    {child : NodeId} (happlies : node.Applies value path child value' path')
    (h : value.hasText = true) : value'.hasText = true := by
  cases happlies with
  | inPlace => exact h
  | item _ hitem => exact Json.itemsHaveText_iff.mp h _ (List.mem_of_getElem? hitem)
  | member _ hmember => exact Json.membersHaveText_iff.mp h _ hmember
  | name => rfl

namespace SchemaNode

variable {node : SchemaNode} {schema : CompiledSchema} {options : EvaluationOptions} {apply : Apply}
  {value : Json} {path : Path} {fair : EvaluationFault → Prop}

/-- The message of a keyword shows an integer without a text. -/
def Unshown (node : SchemaNode) (value : Json) : Prop :=
  ∃ keyword, ∃ shown ∈ node.shown value keyword, shown.hasText = false

def LimitsHaveText (node : SchemaNode) : Prop :=
  ∀ entry ∈ node.limits, ∀ limit ∈ entry.2, limit.hasText = true

instance : Decidable node.LimitsHaveText :=
  inferInstanceAs (Decidable (∀ entry ∈ node.limits, ∀ limit ∈ entry.2, limit.hasText = true))

theorem Unshown.lacks (h : node.Unshown value) : value.hasText = false ∨ ¬ node.LimitsHaveText := by
  obtain ⟨keyword, shown, hshown, hlong⟩ := h
  rcases List.mem_append.mp hshown with hvalue | hlimit
  · split at hvalue
    · rw [List.mem_singleton] at hvalue
      exact .inl (hvalue ▸ hlong)
    · cases hvalue
  · refine .inr fun htext => ?_
    cases hentry : node.limits.lookup keyword with
    | none => simp [hentry] at hlimit
    | some limits =>
      rw [hentry, Option.getD_some] at hlimit
      rw [htext _ (mem_of_lookup hentry) shown hlimit] at hlong
      cases hlong

theorem unshown_of_lacksDigits (h : node.lacksDigits value = true) : node.Unshown value := by
  unfold lacksDigits at h
  split at h
  case h_2 => cases h
  case h_1 n step hstep =>
    have hshown : node.shown (.num n) "multipleOf" = [.num n, .num step] := by
      rw [shown, limits, hstep]
      rfl
    rcases Number.hasText_of_isMultipleOf? (Option.isNone_iff_eq_none.mp h) with hlong | hlong
    · exact ⟨"multipleOf", .num n, by simp [hshown], hlong⟩
    · exact ⟨"multipleOf", .num step, by simp [hshown], hlong⟩

theorem meets_writeOut (hlong : node.Unshown value → fair .noText) (keywords : List String) :
    Meets (fun _ => True) fair (node.writeOut value keywords) := by
  unfold writeOut
  split
  case isTrue => trivial
  case isFalse h =>
    simp only [List.all_eq_true, not_forall, Bool.not_eq_true] at h
    obtain ⟨keyword, -, shown, hshown, hlacks⟩ := h
    exact hlong ⟨keyword, shown, hshown, hlacks⟩

theorem meets_writeOwn (hlong : node.Unshown value → fair .noText) :
    Meets (fun _ => True) fair (node.writeOwn value) := by
  unfold writeOwn
  split
  case isTrue h => exact hlong (unshown_of_lacksDigits h)
  case isFalse => exact meets_writeOut hlong _

section

variable (happly : ∀ child value' path', node.Applies value path child value' path' →
    Meets (All fun _ => True) fair (apply child value' path'))
  (hlong : node.Unshown value → fair .noText)

include happly hlong

theorem meets_arrayShown (hboolean : node.boolean = none) {items : List Json}
    (hvalue : value = .arr items) :
    Meets (All fun _ => True) fair (node.arrayShown schema apply path items) := by
  have hitems : Meets (All fun _ => True) fair (node.arrayViolations schema apply path items) :=
    meets_arrayViolations hboolean happly (fun _ _ => trivial) hvalue
  refine hitems.first.bind fun inside hcontained => (Meets.first hcontained).bind fun _ _ => ?_
  exact (meets_writeOut (hvalue ▸ hlong) _).bind fun _ _ _ _ => trivial

theorem meets_shownViolations (hbreak : ∀ fault, node.Breaks options value fault → fair fault) :
    Meets (All fun _ => True) fair (node.shownViolations schema options apply value path) := by
  unfold shownViolations
  split
  case h_1 => exact meets_violations happly (fun _ _ => trivial) hbreak
  case h_2 hboolean =>
    have hreferred : Meets (All fun _ => True) fair (node.refViolations apply value path) := by
      unfold refViolations
      split
      case h_1 target htarget => exact happly _ _ _ (.inPlace (by simp [inPlace, htarget]))
      case h_2 => exact All.nil
    have hinner : Meets (All fun _ => True) fair (node.innerShown schema apply value path) := by
      unfold innerShown
      split
      case h_1 items => exact meets_arrayShown happly hlong hboolean rfl
      case h_2 members => exact meets_objectViolations hboolean happly (fun _ _ => trivial) rfl
      case h_3 => exact All.nil
    have hown : Meets (All fun _ => True) fair (node.ownViolations options value path) :=
      meets_ownViolations hboolean (fun _ _ => trivial) hbreak
    have hcomposed : Meets (All fun _ => True) fair
        (node.compositionViolations schema apply value path) :=
      meets_compositionViolations hboolean happly fun _ _ => trivial
    exact hreferred.bind fun _ _ => (meets_writeOwn hlong).bind fun _ _ =>
      hown.bind fun _ _ => hinner.bind fun _ _ => hcomposed.bind fun _ _ _ _ => trivial

end

end SchemaNode

/-! ## Expressions -/

theorem Format.check_eq_error {name s : String} {fault : Regex.Fault}
    (h : Format.check name s = .error fault) :
    name = "regex" ∧ Pattern.read s = .error fault ∧ fault.IsBeyondSyntax := by
  unfold Format.check at h
  split at h
  case h_2 => cases h
  case h_1 format hformat =>
    have hname : format.name = name := by simpa using List.find?_some hformat
    cases format with
    | regex =>
      refine ⟨hname.symm, ?_⟩
      cases hread : Pattern.read s with
      | ok pattern => simp [Format.accepts, hread, Except.map] at h
      | error found =>
        simp only [Format.accepts, hread] at h
        cases found with
        | bad => cases h
        | _ =>
          cases h
          exact ⟨rfl, fun _ _ => nofun⟩
    | _ => cases h

theorem SchemaNode.Breaks.expression {node : SchemaNode} {options : EvaluationOptions}
    {value : Json} {fault : EvaluationFault} (h : node.Breaks options value fault) :
    ∃ s inner, value = .str s ∧ fault = .pattern s inner ∧ options.assertFormats = true ∧
      node.string.format = some "regex" ∧ Pattern.read s = .error inner ∧
        inner.IsBeyondSyntax := by
  cases h with
  | format hassert hname hcheck =>
    obtain ⟨rfl, hread, hbeyond⟩ := Format.check_eq_error hcheck
    exact ⟨_, _, rfl, rfl, hassert, hname, hread, hbeyond⟩

namespace CompiledSchema

variable {schema : CompiledSchema} {options : EvaluationOptions} {instance_ : Json}

theorem Reaches.hasText {visit next : Visit} (h : schema.Reaches visit next)
    (htext : visit.value.hasText = true) : next.value.hasText = true := by
  induction h with
  | refl => exact htext
  | tail _ hnext ih =>
    obtain ⟨node, -, happlies⟩ := hnext
    exact happlies.hasText ih

/-- An integer without a text is met at a visit that shows it. -/
theorem exists_unshown {budget : Nat} {start : Visit}
    (h : schema.visitShown options budget start = .error .noText) :
    ∃ there node, schema.Reaches start there ∧ schema.node? there.id = some node ∧
      node.Unshown there.value := by
  induction budget generalizing start with
  | zero => cases h
  | succ budget ih =>
    simp only [visitShown, evaluateShown] at h
    split at h
    case h_2 => cases h
    case h_1 node hnode =>
      have hstep : Meets (All fun _ => True)
          (fun fault => fault = .noText → node.Unshown start.value ∨ ∃ next : Visit,
            schema.Applies start next ∧ schema.visitShown options budget next = .error .noText)
          (node.shownViolations schema options (schema.evaluateShown options budget) start.value
            start.path) := by
        refine SchemaNode.meets_shownViolations (fun child value' path' happlies => ?_)
          (fun hunshown _ => .inl hunshown) fun fault hbreaks hnone => ?_
        · cases hnext : schema.evaluateShown options budget child value' path' with
          | ok found => exact fun _ _ => trivial
          | error fault =>
            rintro rfl
            exact .inr ⟨⟨child, value', path'⟩, ⟨node, hnode, happlies⟩, hnext⟩
        · obtain ⟨_, _, -, hpattern, -⟩ := hbreaks.expression
          exact nomatch hpattern.symm.trans hnone
      rcases hstep.of_error h rfl with hunshown | ⟨next, happlies, hnext⟩
      · exact ⟨start, node, .refl, hnode, hunshown⟩
      · obtain ⟨there, node', hreach, hfound⟩ := ih hnext
        exact ⟨there, node', .head happlies hreach, hfound⟩

theorem exists_unshown_of_validate
    (h : schema.validateShown options instance_ = .error .noText) :
    ∃ there node, schema.Reaches (.root instance_) there ∧ schema.node? there.id = some node ∧
      node.Unshown there.value := by
  have hvisit : schema.visitShown options (options.maxDepth + 1).toNat (.root instance_) =
      .error .noText := h
  exact exists_unshown hvisit

/-! ## Outcomes -/

/-- What stops an evaluation at a visit and is no matter of the depth. -/
inductive Escapes (schema : CompiledSchema) (options : EvaluationOptions) (visit : Visit) :
    EvaluationFault → Prop where
  /-- Formats are asserted, a string is to be an expression, and is at fault beyond its syntax. -/
  | expression {node : SchemaNode} {s : String} {fault : Regex.Fault}
      (hnode : schema.node? visit.id = some node) (hformat : node.string.format = some "regex")
      (hassert : options.assertFormats = true) (hvalue : visit.value = .str s)
      (hread : Pattern.read s = .error fault) (hbeyond : fault.IsBeyondSyntax) :
      Escapes schema options visit (.pattern s fault)
  /-- A message shows an integer of the value or of a keyword, which is too long for a text. -/
  | integer {node : SchemaNode} (hnode : schema.node? visit.id = some node)
      (hshown : node.Unshown visit.value) : Escapes schema options visit .noText

theorem Escapes.isOfDepth {visit : Visit} {fault : EvaluationFault}
    (h : schema.Escapes options visit fault) : fault.isOfDepth = false := by
  cases h <;> rfl

/-- Nothing but the depth stops the evaluation of an instance. -/
def NothingEscapes (schema : CompiledSchema) (options : EvaluationOptions) (instance_ : Json) :
    Prop :=
  ∀ there fault, schema.Reaches (.root instance_) there → ¬ schema.Escapes options there fault

theorem nothingEscapes_of_hasText (hassert : options.assertFormats = false)
    (hinstance : instance_.hasText = true)
    (hlimits : ∀ node ∈ schema.nodes.toList, node.LimitsHaveText) :
    schema.NothingEscapes options instance_ := by
  rintro there fault hreach (⟨_, _, hasserted, _, _, _⟩ | ⟨hnode, hunshown⟩)
  · exact Bool.noConfusion (hassert.symm.trans hasserted)
  · rcases hunshown.lacks with hvalue | hlimit
    · exact Bool.noConfusion (hvalue.symm.trans (hreach.hasText hinstance))
    · exact hlimit (hlimits _ (Array.mem_toList_iff.mpr (Array.mem_of_getElem? hnode)))

theorem tooDeep_or_escapes {fault : EvaluationFault}
    (h : schema.validateShown options instance_ = .error fault) :
    (∃ pointer, fault = .tooDeep options.maxDepth pointer) ∨
      ∃ there, schema.Reaches (.root instance_) there ∧ schema.Escapes options there fault := by
  rcases validateShown_shows schema options instance_ with hnone | hsame
  · obtain ⟨there, node, hreach, hnode, hunshown⟩ := exists_unshown_of_validate hnone
    cases hnone.symm.trans h
    exact .inr ⟨there, hreach, .integer hnode hunshown⟩
  · obtain ⟨there, hreach, hfails⟩ := fails_of_validate (hsame.symm.trans h)
    cases hfails with
    | tooDeep => exact .inl ⟨_, rfl⟩
    | format hnode hbreaks =>
      obtain ⟨s, inner, hvalue, rfl, hassert, hformat, hread, hbeyond⟩ := hbreaks.expression
      exact .inr ⟨there, hreach, .expression hnode hformat hassert hvalue hread hbeyond⟩

theorem NothingEscapes.tooDeep (h : schema.NothingEscapes options instance_)
    {fault : EvaluationFault} (hfault : schema.validateShown options instance_ = .error fault) :
    ∃ pointer, fault = .tooDeep options.maxDepth pointer := by
  refine (tooDeep_or_escapes hfault).resolve_right ?_
  rintro ⟨there, hreach, hescapes⟩
  exact h there fault hreach hescapes

/--
An evaluation has its violations, or it is too deep, and then the limit on the depth is told. There
is no third outcome but two: at a visit that the instance leads to, an asserted format tries a
string as an expression that has a fault beyond its syntax, or a message shows an integer that is
too long for a text.
-/
theorem validation_outcomes (schema : CompiledSchema) (options : EvaluationOptions)
    (instance_ : Json) :
    (∃ violations, schema.validateShown options instance_ = .ok violations) ∨
      (∃ pointer, schema.validateShown options instance_ =
        .error (.tooDeep options.maxDepth pointer)) ∨
      ∃ there fault, schema.Reaches (.root instance_) there ∧ schema.Escapes options there fault ∧
        schema.validateShown options instance_ = .error fault := by
  cases h : schema.validateShown options instance_ with
  | ok violations => exact .inl ⟨violations, rfl⟩
  | error fault =>
    rcases tooDeep_or_escapes h with ⟨pointer, rfl⟩ | ⟨there, hreach, hescapes⟩
    · exact .inr (.inl ⟨pointer, rfl⟩)
    · exact .inr (.inr ⟨there, fault, hreach, hescapes, rfl⟩)

example : (runCompile ⟨10, false, []⟩ (.obj [("format", .str "regex")])).result.toOption.map
    (fun schema => (schema.validateShown ⟨5, true⟩ (.str "x{4294967295}"),
      schema.validateShown ⟨5, true⟩ (.str "x{429496729}"),
      schema.validateShown ⟨5, false⟩ (.str "x{4294967295}"))) =
    some (.error (.pattern "x{4294967295}" .repetitionTooLarge), .ok [], .ok []) := by
  decide +kernel

end CompiledSchema

end JsonSchema
