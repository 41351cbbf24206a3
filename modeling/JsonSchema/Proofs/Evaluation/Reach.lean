import JsonSchema.Proofs.Evaluation.Report
import Mathlib.Logic.Relation

/-!
# What an evaluation reaches

Every violation of an evaluation is raised by one of the nodes that it reaches, on the value that
this node is applied to, and so is every fault.
-/

namespace JsonSchema

/-! ## Outcomes -/

section

variable {α β : Type} {good : α → Prop} {good' : β → Prop} {fair : EvaluationFault → Prop}
  {x : Evaluated α}

/-- The result is good, or else the fault is fair. -/
def Meets (good : α → Prop) (fair : EvaluationFault → Prop) : Evaluated α → Prop
  | .ok a => good a
  | .error e => fair e

theorem Meets.bind {f : α → Evaluated β} (h : Meets good fair x)
    (hf : ∀ a, good a → Meets good' fair (f a)) : Meets good' fair (x >>= f) := by
  cases x with
  | ok a => exact hf a h
  | error e => exact h

theorem Meets.of_ok {a : α} (h : Meets good fair x) (hx : x = .ok a) : good a := by
  rwa [hx] at h

theorem Meets.of_error {fault : EvaluationFault} (h : Meets good fair x) (hx : x = .error fault) :
    fair fault := by
  rwa [hx] at h

end

def All (good : Violation → Prop) (violations : Violations) : Prop := ∀ v ∈ violations, good v

theorem All.nil {good : Violation → Prop} : All good [] := nofun

theorem All.append {good : Violation → Prop} {vs ws : Violations} (h : All good vs)
    (h' : All good ws) : All good (vs ++ ws) :=
  List.forall_mem_append.mpr ⟨h, h'⟩

namespace SchemaNode

variable {node : SchemaNode}

/-! ## One node -/

section

variable {schema : CompiledSchema} {options : EvaluationOptions} {apply : Apply} {value : Json}
  {path : Path} {good : Violation → Prop} {fair : EvaluationFault → Prop}

theorem meets_collect {α : Type} {check : α → Evaluated Violations} {list : List α}
    (h : ∀ a ∈ list, Meets (All good) fair (check a)) :
    Meets (All good) fair (collect check list) := by
  induction list with
  | nil => exact All.nil
  | cons a rest ih =>
    rw [List.forall_mem_cons] at h
    exact h.1.bind fun first hfirst => (ih h.2).bind fun others hothers => hfirst.append hothers

theorem meets_countMatches {child : NodeId} {index : Nat} {items : List Json}
    (h : ∀ i item, items[i]? = some item →
      Meets (All good) fair (apply child item (path ++ [.index ((index + i : Nat) : Int)]))) :
    Meets (fun _ => True) fair (countMatches apply child path index items) := by
  induction items generalizing index with
  | nil => trivial
  | cons item rest ih =>
    refine (h 0 item rfl).bind fun found _ => Meets.bind (ih fun i next hnext => ?_) fun _ _ => trivial
    rw [Nat.add_assoc, Nat.add_comm 1]
    exact h (i + 1) next hnext

theorem meets_failedBranches {branches : List NodeId}
    (h : ∀ branch ∈ branches, Meets (All good) fair (apply branch value path)) :
    Meets (fun failed => ∀ outcome ∈ failed, All good outcome) fair
      (failedBranches apply value path branches) := by
  induction branches with
  | nil => exact fun _ => nofun
  | cons branch rest ih =>
    rw [List.forall_mem_cons] at h
    refine h.1.bind fun found hfound => ?_
    split
    · exact fun _ => nofun
    split
    · exact List.forall_mem_singleton.mpr hfound
    · refine (ih h.2).bind fun others hothers => ?_
      show ∀ outcome ∈ if others.isEmpty then [] else found :: others, All good outcome
      split
      · exact fun _ => nofun
      · exact List.forall_mem_cons.mpr ⟨hfound, hothers⟩

theorem meets_branchOutcomes {branches : List NodeId}
    (h : ∀ branch ∈ branches, Meets (All good) fair (apply branch value path)) :
    Meets (fun outcomes => ∀ outcome ∈ outcomes, All good outcome) fair
      (branchOutcomes apply value path branches) := by
  induction branches with
  | nil => exact fun _ => nofun
  | cons branch rest ih =>
    rw [List.forall_mem_cons] at h
    exact h.1.bind fun found hfound => (ih h.2).bind fun others hothers =>
      List.forall_mem_cons.mpr ⟨hfound, hothers⟩

theorem all_closest {outcomes : List Violations} (h : ∀ outcome ∈ outcomes, All good outcome) :
    All good (closest outcomes) := by
  by_cases hne : outcomes = []
  · rw [hne]
    exact All.nil
  · exact h _ (closest_spec hne).1

variable (hboolean : node.boolean = none)
  (happly : ∀ child value' path', node.Applies value path child value' path' →
    Meets (All good) fair (apply child value' path'))
  (hraise : ∀ violation, node.Says value path violation → good violation)

include hboolean happly hraise

theorem meets_descend {applicator : Applicator} {child : NodeId} {value' : Json} {path' : Path}
    (huses : node.Uses value applicator) (happlies : node.Applies value path child value' path') :
    Meets (All good) fair (node.descend schema apply applicator child value' path') := by
  unfold descend
  split
  · exact List.forall_mem_singleton.mpr (hraise _ (.applied hboolean huses happlies))
  · exact happly _ _ _ happlies

/-! ### Arrays -/

theorem meets_arrayViolations {items : List Json} (hvalue : value = .arr items) :
    Meets (All good) fair (node.arrayViolations schema apply path items) := by
  subst hvalue
  have hitem : ∀ child ∈ node.forItems, ∀ (i : Nat) (item : Json), items[i]? = some item →
      node.Applies (.arr items) path child item (path ++ [.index (i : Int)]) :=
    fun child hchild i item hget => .item hchild hget
  have hinside : Meets (All good) fair (collect
      (fun entry => node.itemViolations schema apply path entry.2 entry.1) items.zipIdx) := by
    refine meets_collect fun entry hentry => ?_
    replace hentry := List.mk_mem_zipIdx_iff_getElem?.mp hentry
    unfold itemViolations
    split
    case h_1 child hchild =>
      have hmem := List.mem_of_getElem? hchild
      exact meets_descend hboolean happly hraise (.firstItem (List.ne_nil_of_mem hmem))
        (hitem child (by simp [forItems, hmem]) _ _ hentry)
    case h_2 child _ hchild =>
      exact meets_descend hboolean happly hraise (.item (by simp [hchild]) _)
        (hitem child (by simp [forItems, hchild]) _ _ hentry)
    case h_3 => exact All.nil
  have hcontains : Meets (All good) fair (node.containsViolations apply path items) := by
    unfold containsViolations
    split
    case h_1 => exact All.nil
    case h_2 child hchild =>
      have hcount : Meets (fun _ => True) fair (countMatches apply child path 0 items) := by
        have hmatch : ∀ (i : Nat) (item : Json), items[i]? = some item →
            Meets (All good) fair (apply child item (path ++ [.index ((0 + i : Nat) : Int)])) := by
          intro i item hget
          rw [Nat.zero_add]
          exact happly _ _ _ (hitem child (by simp [forItems, hchild]) i item hget)
        exact meets_countMatches hmatch
      exact hcount.bind fun found _ => List.forall_mem_map.mpr fun failure hfailure =>
        hraise _ (.own hboolean (.contains (by simp [hchild]) hfailure))
  exact hinside.bind fun _ hinside => hcontains.bind fun _ hcontained => hinside.append hcontained

/-! ### Objects -/

theorem meets_propertyViolations {members : Members Json} {name : String} {member : Json}
    (hvalue : value = .obj members) (hmember : (name, member) ∈ members) :
    Meets (All good) fair (node.propertyViolations schema apply path name member) := by
  subst hvalue
  have hitem : ∀ child ∈ node.forMembers,
      node.Applies (.obj members) path child member (path ++ [.name name]) :=
    fun child hchild => .member hchild hmember
  have hnamed : Meets (All good) fair
      (node.namedViolations schema apply name member (path ++ [.name name])) := by
    unfold namedViolations
    split
    case h_1 child hchild =>
      have hmem := Members.mem_of_get? hchild
      refine meets_descend hboolean happly hraise (.property (List.ne_nil_of_mem hmem))
        (hitem child ?_)
      simp only [forMembers, List.mem_append]
      exact .inl (.inl (List.mem_map_of_mem hmem))
    case h_2 => exact All.nil
  have hmatched : Meets (All good) fair (node.patternViolations schema apply
      (node.object.patternProperties.filter (·.pattern.isIn name)) member (path ++ [.name name])) := by
    refine meets_collect fun entry hentry => ?_
    have hmem := List.mem_of_mem_filter hentry
    refine meets_descend hboolean happly hraise (.pattern (List.ne_nil_of_mem hmem)) (hitem _ ?_)
    simp only [forMembers, List.mem_append]
    exact .inl (.inr (List.mem_map_of_mem hmem))
  have hadditional : ∀ covered, Meets (All good) fair
      (node.additionalViolations schema apply covered name member (path ++ [.name name])) := by
    intro covered
    unfold additionalViolations
    split
    case h_1 child hchild =>
      exact meets_descend hboolean happly hraise
        (.additional (by simp [hchild]) (List.mem_map_of_mem hmember))
        (hitem child (by simp [forMembers, hchild]))
    case h_2 => exact All.nil
  exact hnamed.bind fun _ hnamed => hmatched.bind fun _ hmatched =>
    (hadditional _).bind fun _ hadditional => (hnamed.append hmatched).append hadditional

theorem meets_objectViolations {members : Members Json} (hvalue : value = .obj members) :
    Meets (All good) fair (node.objectViolations schema apply path members) := by
  have hinside : Meets (All good) fair (collect
      (fun member => node.propertyViolations schema apply path member.1 member.2) members) :=
    meets_collect fun _ hmember => meets_propertyViolations hboolean happly hraise hvalue hmember
  subst hvalue
  have hnames : Meets (All good) fair
      (collect (node.nameViolations schema apply path) members.names) := by
    refine meets_collect fun name hname => ?_
    unfold nameViolations
    split
    case h_1 => exact All.nil
    case h_2 child hchild =>
      exact meets_descend hboolean happly hraise (.name (by simp [hchild]) hname)
        (.name hchild hname)
  have hdependent : Meets (All good) fair (collect (fun entry =>
      node.dependentViolations schema apply path members entry.1 entry.2)
        node.object.dependentSchemas) := by
    refine meets_collect fun entry hentry => ?_
    unfold dependentViolations
    split
    case isTrue hhas =>
      obtain ⟨present, hget⟩ := Option.isSome_iff_exists.mp hhas
      have hname := List.mem_map_of_mem (f := Prod.fst) (Members.mem_of_get? hget)
      exact meets_descend hboolean happly hraise (.dependent (List.ne_nil_of_mem hentry) hname)
        (.inPlace (List.mem_append_right _ (List.mem_map_of_mem hentry)))
    case isFalse => exact All.nil
  exact hinside.bind fun _ hinside => hnames.bind fun _ hnames =>
    hdependent.bind fun _ hdependent => (hinside.append hnames).append hdependent

/-! ### Compositions -/

theorem meets_compositionViolations :
    Meets (All good) fair (node.compositionViolations schema apply value path) := by
  have hinPlace : ∀ child ∈ node.inPlace, Meets (All good) fair (apply child value path) :=
    fun child hchild => happly _ _ _ (.inPlace hchild)
  have hown : ∀ keyword message, node.Finds value keyword message →
      good (node.violation path keyword message) :=
    fun keyword message h => hraise _ (.own hboolean h)
  have hdescend : ∀ keyword child, (keyword, true) ∈ node.composition.present →
      child ∈ node.inPlace →
        Meets (All good) fair (node.descend schema apply (.plain keyword) child value path) :=
    fun keyword child hkeyword hchild =>
      meets_descend hboolean happly hraise (.composed hkeyword) (.inPlace hchild)
  have hall : Meets (All good) fair (collect
      (fun child => node.descend schema apply (.plain "allOf") child value path)
        node.composition.allOf) := by
    refine meets_collect fun child hchild => hdescend _ _ ?_ (by simp [inPlace, hchild])
    simp [Composition.present, List.ne_nil_of_mem hchild]
  have hany : Meets (All good) fair (node.anyOfViolations apply value path) := by
    by_cases hempty : node.composition.anyOf = []
    · rw [anyOfViolations, hempty]
      exact All.nil
    refine (meets_failedBranches fun branch hbranch =>
      hinPlace branch (by simp [inPlace, hbranch])).bind fun failed hfailed => ?_
    split
    · exact All.nil
    · exact List.forall_mem_cons.mpr ⟨hown _ _ (.anyOf hempty), all_closest hfailed⟩
  have hone : Meets (All good) fair (node.oneOfViolations apply value path) := by
    by_cases hempty : node.composition.oneOf = []
    · rw [oneOfViolations, hempty]
      exact All.nil
    refine (meets_branchOutcomes fun branch hbranch =>
      hinPlace branch (by simp [inPlace, hbranch])).bind fun outcomes houtcomes => ?_
    dsimp only
    split
    · exact All.nil
    · refine List.forall_mem_cons.mpr ⟨hown _ _ (.oneOf hempty _ _), ?_⟩
      split
      · exact all_closest houtcomes
      · exact All.nil
  have hnot : Meets (All good) fair (node.notViolations apply value path) := by
    unfold notViolations
    split
    case h_1 => exact All.nil
    case h_2 child hchild =>
      refine (hinPlace child (by simp [inPlace, hchild])).bind fun found _ => ?_
      show All good (if found.isEmpty then _ else _)
      split
      · exact List.forall_mem_singleton.mpr (hown _ _ (.not (by simp [hchild])))
      · exact All.nil
  have hcondition : Meets (All good) fair (node.conditionViolations schema apply value path) := by
    unfold conditionViolations
    split
    case h_1 => exact All.nil
    case h_2 child hchild =>
      refine (hinPlace child (by simp [inPlace, hchild])).bind fun found _ => ?_
      cases found.isEmpty with
      | true =>
        simp only [if_true]
        split
        case h_1 branch hbranch =>
          exact hdescend _ _ (by simp [Composition.present, hbranch]) (by simp [inPlace, hbranch])
        case h_2 => exact All.nil
      | false =>
        simp only [Bool.false_eq_true, if_false]
        split
        case h_1 branch hbranch =>
          exact hdescend _ _ (by simp [Composition.present, hbranch]) (by simp [inPlace, hbranch])
        case h_2 => exact All.nil
  exact hall.bind fun _ hall => hany.bind fun _ hany => hone.bind fun _ hone =>
    hnot.bind fun _ hnot => hcondition.bind fun _ hcondition =>
      (((hall.append hany).append hone).append hnot).append hcondition

/-! ### Whole nodes -/

omit happly in
theorem meets_ownViolations (hbreak : ∀ fault, node.Breaks options value fault → fair fault) :
    Meets (All good) fair (node.ownViolations options value path) := by
  have hraised : ∀ failures : List Failure,
      (∀ failure ∈ failures, node.Finds value failure.keyword failure.message) →
        All good (failures.map fun failure =>
          node.violation path failure.keyword failure.message) :=
    fun failures h => List.forall_mem_map.mpr fun failure hfailure =>
      hraise _ (.own hboolean (h failure hfailure))
  unfold ownViolations
  cases hformat : (node.formatFailures options.assertFormats value).mapError
      (EvaluationFault.pattern (value.string?.getD "") ·) with
  | error fault =>
    obtain ⟨inner, hinner, rfl⟩ := Except.mapError_eq_error.mp hformat
    obtain ⟨text, rfl, hassert, name, hname, hcheck⟩ := formatFailures_eq_error hinner
    exact hbreak _ (.format hassert hname hcheck)
  | ok formatFailures =>
    refine hraised _ fun failure hfailure => ?_
    rcases List.mem_append.mp hfailure with hfailure | hfailure
    · exact .failure hfailure
    · exact .format (Except.mapError_eq_ok.mp hformat) hfailure

omit hboolean in
theorem meets_violations (hbreak : ∀ fault, node.Breaks options value fault → fair fault) :
    Meets (All good) fair (node.violations schema options apply value path) := by
  unfold SchemaNode.violations
  split
  case h_1 => exact All.nil
  case h_2 hboolean => exact List.forall_mem_singleton.mpr (hraise _ (.refused hboolean))
  case h_3 hboolean =>
    have hreferred : Meets (All good) fair (node.refViolations apply value path) := by
      unfold refViolations
      split
      case h_1 target htarget => exact happly _ _ _ (.inPlace (by simp [inPlace, htarget]))
      case h_2 => exact All.nil
    have hinner : Meets (All good) fair (node.innerViolations schema apply value path) := by
      unfold innerViolations
      split
      case h_1 items => exact meets_arrayViolations hboolean happly hraise rfl
      case h_2 members => exact meets_objectViolations hboolean happly hraise rfl
      case h_3 => exact All.nil
    exact hreferred.bind fun _ hreferred =>
      (meets_ownViolations hboolean hraise hbreak).bind fun _ hown => hinner.bind fun _ hinner =>
        (meets_compositionViolations hboolean happly hraise).bind fun _ hcomposed =>
          ((hreferred.append hown).append hinner).append hcomposed

end

/-! ## One step -/

section

variable {schema : CompiledSchema} {options : EvaluationOptions} {apply : Apply} {value : Json}
  {path : Path}

inductive Passes (node : SchemaNode) (apply : Apply) (value : Json) (path : Path)
    (outcome : Evaluated Violations) : Prop where
  | on {child : NodeId} {value' : Json} {path' : Path}
      (happlies : node.Applies value path child value' path')
      (h : apply child value' path' = outcome) : Passes node apply value path outcome

/-- What a node reports it raises itself, or has from a node that it applies. -/
theorem meets_origin :
    Meets
      (All fun violation => node.Says value path violation ∨
        ∃ found, violation ∈ found ∧ node.Passes apply value path (.ok found))
      (fun fault => node.Breaks options value fault ∨ node.Passes apply value path (.error fault))
      (node.violations schema options apply value path) := by
  refine meets_violations (fun child value' path' happlies => ?_) (fun _ => .inl) (fun _ => .inl)
  cases houtcome : apply child value' path' with
  | ok found => exact fun violation hviolation => .inr ⟨found, hviolation, .on happlies houtcome⟩
  | error fault => exact .inr (.on happlies houtcome)

end

end SchemaNode

/-! ## Whole evaluations -/

/-- A node that is applied to a value at a path. -/
structure Visit where
  id : NodeId
  value : Json
  path : Path

def Visit.root (instance_ : Json) : Visit := ⟨rootId, instance_, []⟩

namespace CompiledSchema

def Applies (schema : CompiledSchema) (visit next : Visit) : Prop :=
  ∃ node, schema.node? visit.id = some node ∧
    node.Applies visit.value visit.path next.id next.value next.path

abbrev Reaches (schema : CompiledSchema) : Visit → Visit → Prop :=
  Relation.ReflTransGen schema.Applies

def visit (schema : CompiledSchema) (options : EvaluationOptions) (budget : Nat) (visit : Visit) :
    Evaluated Violations :=
  schema.evaluate options budget visit.id visit.value visit.path

theorem visit_succ (schema : CompiledSchema) (options : EvaluationOptions) (budget : Nat)
    (visit : Visit) : schema.visit options (budget + 1) visit =
      match schema.node? visit.id with
      | some node =>
        node.violations schema options (schema.evaluate options budget) visit.value visit.path
      | none => .ok [] := rfl

section

variable {schema : CompiledSchema} {options : EvaluationOptions} {budget : Nat} {start : Visit}
  {violation : Violation} {found : Violations} {fault : EvaluationFault}

/-! ### One level -/

theorem says_or_applies (h : schema.visit options (budget + 1) start = .ok found)
    (hmem : violation ∈ found) : ∃ node, schema.node? start.id = some node ∧
      (node.Says start.value start.path violation ∨ ∃ next found', schema.Applies start next ∧
        schema.visit options budget next = .ok found' ∧ violation ∈ found') := by
  rw [visit_succ] at h
  split at h
  case h_1 node hnode =>
    refine ⟨node, hnode, (SchemaNode.meets_origin.of_ok h violation hmem).imp_right ?_⟩
    rintro ⟨found', hmem', happlies, hnext⟩
    exact ⟨⟨_, _, _⟩, found', ⟨node, hnode, happlies⟩, hnext, hmem'⟩
  case h_2 =>
    cases h
    cases hmem

theorem breaks_or_applies (h : schema.visit options (budget + 1) start = .error fault) :
    ∃ node, schema.node? start.id = some node ∧
      (node.Breaks options start.value fault ∨ ∃ next, schema.Applies start next ∧
        schema.visit options budget next = .error fault) := by
  rw [visit_succ] at h
  split at h
  case h_1 node hnode =>
    refine ⟨node, hnode, (SchemaNode.meets_origin.of_error h).imp_right ?_⟩
    rintro ⟨happlies, hnext⟩
    exact ⟨⟨_, _, _⟩, ⟨node, hnode, happlies⟩, hnext⟩
  case h_2 => cases h

/-! ### All levels -/

/-- A visit that raises a violation itself, and reports it. -/
structure Source (schema : CompiledSchema) (options : EvaluationOptions) (visit : Visit)
    (node : SchemaNode) (violation : Violation) : Prop where
  node? : schema.node? visit.id = some node
  raises : node.Raises visit.value visit.path violation
  reports : ∃ budget found, schema.visit options budget visit = .ok found ∧ violation ∈ found

/-- A visit whose node has the words for a violation, and that reports it. -/
structure Speaks (schema : CompiledSchema) (options : EvaluationOptions) (visit : Visit)
    (node : SchemaNode) (violation : Violation) : Prop where
  node? : schema.node? visit.id = some node
  spoken : node.Says visit.value visit.path violation
  reports : ∃ budget found, schema.visit options budget visit = .ok found ∧ violation ∈ found

theorem Speaks.source {visit : Visit} {node : SchemaNode}
    (h : schema.Speaks options visit node violation) :
    schema.Source options visit node violation :=
  ⟨h.node?, h.spoken.raises, h.reports⟩

theorem exists_speaks (h : schema.visit options budget start = .ok found)
    (hmem : violation ∈ found) :
    ∃ there node, schema.Reaches start there ∧ schema.Speaks options there node violation := by
  induction budget generalizing start found with
  | zero => cases h
  | succ budget ih =>
    obtain ⟨node, hnode, hspoken | ⟨next, found', happlies, hnext, hmem'⟩⟩ := says_or_applies h hmem
    · exact ⟨start, node, .refl, hnode, hspoken, budget + 1, found, h, hmem⟩
    · obtain ⟨there, node', hreach, hsource⟩ := ih hnext hmem'
      exact ⟨there, node', .head happlies hreach, hsource⟩

/-- Why a visit has no outcome: no budget is left, or the format of its node breaks. -/
inductive Fails (schema : CompiledSchema) (options : EvaluationOptions) (visit : Visit) :
    EvaluationFault → Prop where
  | tooDeep : Fails schema options visit (.tooDeep options.maxDepth visit.path.pointer)
  | format {node : SchemaNode} {fault : EvaluationFault} (hnode : schema.node? visit.id = some node)
      (h : node.Breaks options visit.value fault) : Fails schema options visit fault

theorem exists_fails (h : schema.visit options budget start = .error fault) :
    ∃ there, schema.Reaches start there ∧ schema.Fails options there fault := by
  induction budget generalizing start with
  | zero =>
    cases h
    exact ⟨start, .refl, .tooDeep⟩
  | succ budget ih =>
    obtain ⟨node, hnode, hbreaks | ⟨next, happlies, hnext⟩⟩ := breaks_or_applies h
    · exact ⟨start, .refl, .format hnode hbreaks⟩
    · obtain ⟨there, hreach, hfails⟩ := ih hnext
      exact ⟨there, .head happlies hreach, hfails⟩

/-! ### Instances -/

theorem validate_eq_visit (schema : CompiledSchema) (options : EvaluationOptions)
    (instance_ : Json) : schema.validate options instance_ =
      schema.visit options (options.maxDepth + 1).toNat (.root instance_) := rfl

theorem speaks_of_validate {instance_ : Json} (h : schema.validate options instance_ = .ok found)
    (hmem : violation ∈ found) : ∃ there node, schema.Reaches (.root instance_) there ∧
      schema.Speaks options there node violation :=
  exists_speaks (validate_eq_visit schema options instance_ ▸ h) hmem

theorem source_of_validate {instance_ : Json} (h : schema.validate options instance_ = .ok found)
    (hmem : violation ∈ found) : ∃ there node, schema.Reaches (.root instance_) there ∧
      schema.Source options there node violation := by
  obtain ⟨there, node, hreach, hspeaks⟩ := speaks_of_validate h hmem
  exact ⟨there, node, hreach, hspeaks.source⟩

theorem fails_of_validate {instance_ : Json} (h : schema.validate options instance_ = .error fault) :
    ∃ there, schema.Reaches (.root instance_) there ∧ schema.Fails options there fault :=
  exists_fails (validate_eq_visit schema options instance_ ▸ h)

end

end CompiledSchema

end JsonSchema
