import JsonSchema.Proofs.Evaluation.Reach
import JsonSchema.Proofs.Evaluation.Safety
import JsonSchema.Proofs.Evaluation.Verdict
import JsonSchema.Proofs.Evaluation.Violated

/-!
# What the report of a node consists of

A node names the keywords that its value violates, and takes over what it asks of other nodes. This
is all that is in its report, and none of it is left out.
-/

namespace JsonSchema

/-! ## What keywords ask of other nodes -/

inductive ArrayKeywords.AsksItem (keywords : ArrayKeywords) (path : Path) (index : Nat)
    (item : Json) : String → Visit → Prop where
  | first {child : NodeId} (h : keywords.firstItems[index]? = some child) :
      AsksItem keywords path index item keywords.firstItemsKeyword
        ⟨child, item, path ++ [.index index]⟩
  | further {child : NodeId} (hbeyond : keywords.firstItems.length ≤ index)
      (h : keywords.items = some child) :
      AsksItem keywords path index item keywords.itemsKeyword ⟨child, item, path ++ [.index index]⟩

inductive ObjectKeywords.AsksProperty (keywords : ObjectKeywords) (path : Path) (name : String)
    (value : Json) : String → Visit → Prop where
  | named {child : NodeId} (h : keywords.properties.get? name = some child) :
      AsksProperty keywords path name value "properties" ⟨child, value, path ++ [.name name]⟩
  | matched {entry : PatternProperty} (h : entry ∈ keywords.patternProperties)
      (hmatch : entry.pattern.isIn name = true) :
      AsksProperty keywords path name value "patternProperties"
        ⟨entry.node, value, path ++ [.name name]⟩
  | additional {child : NodeId} (hadditional : keywords.IsAdditional name)
      (h : keywords.additionalProperties = some child) :
      AsksProperty keywords path name value "additionalProperties"
        ⟨child, value, path ++ [.name name]⟩

/-- A keyword asks that another node holds of a property, of its name or of the whole object. -/
inductive ObjectKeywords.Asks (keywords : ObjectKeywords) (path : Path) (members : Members Json) :
    String → Visit → Prop where
  | property {name keyword : String} {value : Json} {next : Visit}
      (hmember : (name, value) ∈ members) (h : keywords.AsksProperty path name value keyword next) :
      Asks keywords path members keyword next
  | name {name : String} {child : NodeId} (hname : name ∈ members.names)
      (h : keywords.propertyNames = some child) :
      Asks keywords path members "propertyNames" ⟨child, .str name, path⟩
  | dependent {trigger : String} {child : NodeId} (h : (trigger, child) ∈ keywords.dependentSchemas)
      (htrigger : members.has trigger = true) :
      Asks keywords path members "dependentSchemas" ⟨child, .obj members, path⟩

inductive Composition.Asks (keywords : Composition) (sat : NodeId → Json → Prop) (value : Json)
    (path : Path) : String → Visit → Prop where
  | allOf {child : NodeId} (h : child ∈ keywords.allOf) :
      Asks keywords sat value path "allOf" ⟨child, value, path⟩
  | consequent {condition child : NodeId} (hcondition : keywords.condition = some condition)
      (hsat : sat condition value) (h : keywords.consequent = some child) :
      Asks keywords sat value path "then" ⟨child, value, path⟩
  | alternative {condition child : NodeId} (hcondition : keywords.condition = some condition)
      (hsat : ¬ sat condition value) (h : keywords.alternative = some child) :
      Asks keywords sat value path "else" ⟨child, value, path⟩

/-- On a value at a path, a keyword of the node asks that another node holds. -/
inductive SchemaNode.Asks (node : SchemaNode) (sat : NodeId → Json → Prop) :
    Json → Path → String → Visit → Prop where
  | item {items : List Json} {path : Path} {keyword : String} {next : Visit} {item : Json}
      {index : Nat} (hitem : items[index]? = some item)
      (h : node.array.AsksItem path index item keyword next) :
      Asks node sat (.arr items) path keyword next
  | object {members : Members Json} {path : Path} {keyword : String} {next : Visit}
      (h : node.object.Asks path members keyword next) :
      Asks node sat (.obj members) path keyword next
  | composition {value : Json} {path : Path} {keyword : String} {next : Visit}
      (h : node.composition.Asks sat value path keyword next) :
      Asks node sat value path keyword next

def CompiledSchema.Refuses (schema : CompiledSchema) (id : NodeId) : Prop :=
  ∃ node, schema.node? id = some node ∧ node.boolean = some false

/--
The node hands its value over to another one: to the target of its reference, or to a branch of
which it shows the violations, where no branch holds of the value.
-/
inductive SchemaNode.Hands (node : SchemaNode) (sat : NodeId → Json → Prop) (value : Json) :
    NodeId → Prop where
  | target {child : NodeId} (h : node.refTarget = some child) : Hands node sat value child
  | anyOf {child : NodeId} (h : child ∈ node.composition.anyOf)
      (hnone : ∀ branch ∈ node.composition.anyOf, ¬ sat branch value) : Hands node sat value child
  | oneOf {child : NodeId} (h : child ∈ node.composition.oneOf)
      (hnone : ∀ branch ∈ node.composition.oneOf, ¬ sat branch value) : Hands node sat value child

namespace SchemaNode

variable {node : SchemaNode} {schema : CompiledSchema} {apply : Apply}
  {sat : NodeId → Json → Prop} {value : Json} {path : Path} {keyword : String} {next : Visit}
  {found violations : Violations}

/-! ## Answers of other nodes -/

/-- What the node reports about one visit that a keyword asks for. -/
inductive Answers (node : SchemaNode) (schema : CompiledSchema) (apply : Apply) (keyword : String)
    (next : Visit) : Violations → Prop where
  | refused (h : schema.Refuses next.id) (message : String) :
      Answers node schema apply keyword next [node.violation next.path keyword message]
  | applied {found : Violations} (h : ¬ schema.Refuses next.id)
      (happly : apply next.id next.value next.path = .ok found) :
      Answers node schema apply keyword next found

theorem answers_of_descend {applicator : Applicator} {child : NodeId}
    (h : node.descend schema apply applicator child value path = .ok found) :
    node.Answers schema apply applicator.keyword ⟨child, value, path⟩ found := by
  have hrefuses : ((schema.node? child).bind (·.boolean) == some false) = true ↔
      schema.Refuses child := by
    rw [beq_iff_eq, Option.bind_eq_some_iff]
    rfl
  unfold descend at h
  split at h
  case isTrue hfalse =>
    obtain rfl := Except.ok.inj h
    exact .refused (hrefuses.mp hfalse) _
  case isFalse hfalse => exact .applied (mt hrefuses.mpr hfalse) h

/-- The violations are the answers to what is asked, and none of these answers is left out. -/
structure Gathers (node : SchemaNode) (schema : CompiledSchema) (apply : Apply)
    (asked : String → Visit → Prop) (violations : Violations) : Prop where
  sound : ∀ violation ∈ violations, ∃ keyword next found, asked keyword next ∧
    node.Answers schema apply keyword next found ∧ violation ∈ found
  complete : ∀ keyword next, asked keyword next →
    ∃ found, node.Answers schema apply keyword next found ∧ found ⊆ violations

section

variable {asked asked' : String → Visit → Prop}

theorem Gathers.congr (h : node.Gathers schema apply asked violations)
    (hiff : ∀ keyword next, asked keyword next ↔ asked' keyword next) :
    node.Gathers schema apply asked' violations := by
  obtain rfl : asked = asked' := funext fun keyword => funext fun next => propext (hiff keyword next)
  exact h

theorem gathers_nil (h : ∀ keyword next, ¬ asked keyword next) :
    node.Gathers schema apply asked [] :=
  ⟨nofun, fun keyword next hasked => (h keyword next hasked).elim⟩

theorem gathers_descend {applicator : Applicator} {child : NodeId}
    (h : node.descend schema apply applicator child value path = .ok found) :
    node.Gathers schema apply
      (fun keyword next => keyword = applicator.keyword ∧ next = ⟨child, value, path⟩) found := by
  have hanswers := answers_of_descend h
  refine ⟨fun violation hmem => ⟨_, _, found, ⟨rfl, rfl⟩, hanswers, hmem⟩, ?_⟩
  rintro keyword next ⟨rfl, rfl⟩
  exact ⟨found, hanswers, List.Subset.refl found⟩

theorem gathers_given (applicator : Applicator) {given : Option NodeId}
    (hnone : given = none → violations = []) (hsome : ∀ child, given = some child →
      node.descend schema apply applicator child value path = .ok violations) :
    node.Gathers schema apply (fun keyword next => ∃ child, given = some child ∧
      keyword = applicator.keyword ∧ next = ⟨child, value, path⟩) violations := by
  cases given with
  | none =>
    obtain rfl := hnone rfl
    exact gathers_nil (by simp)
  | some child => exact (gathers_descend (hsome child rfl)).congr (by simp)

theorem Gathers.append (h : node.Gathers schema apply asked found)
    (h' : node.Gathers schema apply asked' violations) :
    node.Gathers schema apply (fun keyword next => asked keyword next ∨ asked' keyword next)
      (found ++ violations) := by
  constructor
  · intro violation hmem
    rcases List.mem_append.mp hmem with hmem | hmem
    · obtain ⟨keyword, next, answer, hasked, hanswer⟩ := h.sound violation hmem
      exact ⟨keyword, next, answer, .inl hasked, hanswer⟩
    · obtain ⟨keyword, next, answer, hasked, hanswer⟩ := h'.sound violation hmem
      exact ⟨keyword, next, answer, .inr hasked, hanswer⟩
  · rintro keyword next (hasked | hasked)
    · obtain ⟨answer, hanswer, hsubset⟩ := h.complete keyword next hasked
      exact ⟨answer, hanswer, List.subset_append_of_subset_left _ hsubset⟩
    · obtain ⟨answer, hanswer, hsubset⟩ := h'.complete keyword next hasked
      exact ⟨answer, hanswer, List.subset_append_of_subset_right _ hsubset⟩

theorem gathers_collect {α : Type} {check : α → Evaluated Violations} {list : List α}
    {asked : α → String → Visit → Prop}
    (hcheck : ∀ a found, check a = .ok found → node.Gathers schema apply (asked a) found)
    (h : collect check list = .ok violations) :
    node.Gathers schema apply (fun keyword next => ∃ a ∈ list, asked a keyword next) violations := by
  induction list generalizing violations with
  | nil =>
    obtain rfl := Except.ok.inj h
    exact gathers_nil (by simp)
  | cons a rest ih =>
    simp only [collect, Except.bind_eq_ok, Except.pure_eq_ok] at h
    obtain ⟨first, hfirst, others, hothers, rfl⟩ := h
    refine ((hcheck a first hfirst).append (ih hothers)).congr fun keyword next => ?_
    simp only [List.mem_cons, exists_eq_or_imp]

end

/-! ## Arrays and objects -/

theorem gathers_itemViolations {index : Nat} {item : Json}
    (h : node.itemViolations schema apply path index item = .ok violations) :
    node.Gathers schema apply (node.array.AsksItem path index item) violations := by
  unfold itemViolations at h
  split at h
  case h_1 child hchild =>
    refine (gathers_descend h).congr fun keyword next => ⟨?_, fun hasked => ?_⟩
    · rintro ⟨rfl, rfl⟩
      exact .first hchild
    · cases hasked with
      | first hfirst => exact ⟨rfl, by rw [Option.some.inj (hchild.symm.trans hfirst)]⟩
      | further hbeyond =>
        rw [List.getElem?_eq_none hbeyond] at hchild
        cases hchild
  case h_2 child hnone hchild =>
    refine (gathers_descend h).congr fun keyword next => ⟨?_, fun hasked => ?_⟩
    · rintro ⟨rfl, rfl⟩
      exact .further (List.getElem?_eq_none_iff.mp hnone) hchild
    · cases hasked with
      | first hfirst => cases hnone.symm.trans hfirst
      | further _ hitems => exact ⟨rfl, by rw [Option.some.inj (hchild.symm.trans hitems)]⟩
  case h_3 hnone hitems =>
    obtain rfl := Except.ok.inj h
    refine gathers_nil fun keyword next hasked => ?_
    cases hasked with
    | first hfirst => cases hnone.symm.trans hfirst
    | further _ hfurther => cases hitems.symm.trans hfurther

theorem gathers_namedViolations {name : String} {valuePath : Path}
    (h : node.namedViolations schema apply name value valuePath = .ok violations) :
    node.Gathers schema apply (fun keyword next => ∃ child,
      node.object.properties.get? name = some child ∧ keyword = "properties" ∧
        next = ⟨child, value, valuePath⟩) violations := by
  refine gathers_given (.plain "properties") (fun hnone => ?_) fun child hchild => ?_
  · rw [namedViolations, hnone] at h
    exact (Except.ok.inj h).symm
  · rwa [namedViolations, hchild] at h

theorem gathers_patternViolations {matching : List PatternProperty} {valuePath : Path}
    (h : node.patternViolations schema apply matching value valuePath = .ok violations) :
    node.Gathers schema apply (fun keyword next => ∃ entry ∈ matching,
      keyword = "patternProperties" ∧ next = ⟨entry.node, value, valuePath⟩) violations :=
  gathers_collect (fun _ _ => gathers_descend) h

theorem gathers_additionalViolations {covered : Bool} {name : String} {valuePath : Path}
    (h : node.additionalViolations schema apply covered name value valuePath = .ok violations) :
    node.Gathers schema apply (fun keyword next => ∃ child, covered = false ∧
      node.object.additionalProperties = some child ∧ keyword = "additionalProperties" ∧
        next = ⟨child, value, valuePath⟩) violations := by
  unfold additionalViolations at h
  split at h
  case h_1 child hchild =>
    refine (gathers_descend h).congr fun keyword next => ?_
    simp [hchild]
  case h_2 hnone =>
    obtain rfl := Except.ok.inj h
    refine gathers_nil ?_
    rintro keyword next ⟨child, hcovered, hchild, -⟩
    exact hnone child hcovered hchild

theorem gathers_propertyViolations {name : String}
    (h : node.propertyViolations schema apply path name value = .ok violations) :
    node.Gathers schema apply (node.object.AsksProperty path name value) violations := by
  simp only [propertyViolations, Except.bind_eq_ok, Except.pure_eq_ok] at h
  obtain ⟨named, hnamed, matched, hmatched, additional, hadditional, rfl⟩ := h
  refine (((gathers_namedViolations hnamed).append (gathers_patternViolations hmatched)).append
    (gathers_additionalViolations hadditional)).congr fun keyword next => ?_
  simp only [List.mem_filter, ← Bool.not_eq_true, covered_iff, not_not]
  constructor
  · rintro ((⟨child, hchild, rfl, rfl⟩ | ⟨entry, ⟨hentry, hmatch⟩, rfl, rfl⟩) |
      ⟨child, hnone, hchild, rfl, rfl⟩)
    · exact .named hchild
    · exact .matched hentry hmatch
    · exact .additional hnone hchild
  · rintro (hchild | ⟨hentry, hmatch⟩ | ⟨hnone, hchild⟩)
    · exact .inl (.inl ⟨_, hchild, rfl, rfl⟩)
    · exact .inl (.inr ⟨_, ⟨hentry, hmatch⟩, rfl, rfl⟩)
    · exact .inr ⟨_, hnone, hchild, rfl, rfl⟩

theorem gathers_nameViolations {name : String}
    (h : node.nameViolations schema apply path name = .ok violations) :
    node.Gathers schema apply (fun keyword next => ∃ child,
      node.object.propertyNames = some child ∧ keyword = "propertyNames" ∧
        next = ⟨child, .str name, path⟩) violations := by
  refine gathers_given ⟨"propertyNames", "property name '" ++ name ++ "' is not allowed"⟩
    (fun hnone => ?_) fun child hchild => ?_
  · rw [nameViolations, hnone] at h
    exact (Except.ok.inj h).symm
  · rwa [nameViolations, hchild] at h

theorem gathers_dependentViolations {members : Members Json} {trigger : String} {child : NodeId}
    (h : node.dependentViolations schema apply path members trigger child = .ok violations) :
    node.Gathers schema apply (fun keyword next => members.has trigger = true ∧
      keyword = "dependentSchemas" ∧ next = ⟨child, .obj members, path⟩) violations := by
  unfold dependentViolations at h
  split at h
  case isTrue htrigger =>
    refine (gathers_descend h).congr fun keyword next => ?_
    simp [htrigger]
  case isFalse htrigger =>
    obtain rfl := Except.ok.inj h
    exact gathers_nil (by simp [htrigger])

theorem gathers_objectViolations {members : Members Json}
    (h : node.objectViolations schema apply path members = .ok violations) :
    node.Gathers schema apply (node.object.Asks path members) violations := by
  simp only [objectViolations, Except.bind_eq_ok, Except.pure_eq_ok] at h
  obtain ⟨inside, hinside, names, hnames, dependent, hdependent, rfl⟩ := h
  have hinside' := gathers_collect (fun member _ hfound => gathers_propertyViolations hfound) hinside
  have hnames' := gathers_collect (fun name _ hfound => gathers_nameViolations hfound) hnames
  have hdependent' :=
    gathers_collect (fun entry _ hfound => gathers_dependentViolations hfound) hdependent
  refine ((hinside'.append hnames').append hdependent').congr fun keyword next => ?_
  constructor
  · rintro ((⟨member, hmember, hasked⟩ | ⟨name, hname, child, hchild, rfl, rfl⟩) |
      ⟨entry, hentry, htrigger, rfl, rfl⟩)
    · exact .property hmember hasked
    · exact .name hname hchild
    · exact .dependent hentry htrigger
  · rintro (⟨hmember, hasked⟩ | ⟨hname, hchild⟩ | ⟨hentry, htrigger⟩)
    · exact .inl (.inl ⟨_, hmember, hasked⟩)
    · exact .inl (.inr ⟨_, hname, _, hchild, rfl, rfl⟩)
    · exact .inr ⟨_, hentry, htrigger, rfl, rfl⟩

/-! ## Compositions -/

theorem gathers_conditionViolations (hd : Decides apply sat)
    (h : node.conditionViolations schema apply value path = .ok violations) :
    node.Gathers schema apply (fun keyword next => ∃ condition child,
      node.composition.condition = some condition ∧ next = ⟨child, value, path⟩ ∧
        (sat condition value ∧ node.composition.consequent = some child ∧ keyword = "then" ∨
          ¬ sat condition value ∧ node.composition.alternative = some child ∧ keyword = "else"))
      violations := by
  unfold conditionViolations at h
  cases hcondition : node.composition.condition with
  | none =>
    rw [hcondition] at h
    obtain rfl := Except.ok.inj h
    exact gathers_nil (by simp)
  | some condition =>
    simp only [hcondition, Except.bind_eq_ok] at h
    obtain ⟨outcome, houtcome, h⟩ := h
    have hsat := hd _ _ _ _ houtcome
    rcases hchoice : (if outcome.isEmpty = true then ("then", node.composition.consequent)
      else ("else", node.composition.alternative)) with ⟨name, chosen⟩
    rw [hchoice] at h
    have hgathers : node.Gathers schema apply (fun keyword next => ∃ child, chosen = some child ∧
        keyword = name ∧ next = ⟨child, value, path⟩) violations := by
      refine gathers_given (.plain name) (fun hnone => ?_) fun child hchild => ?_
      · rw [hnone] at h
        exact (Except.pure_eq_ok.mp h).symm
      · rwa [hchild] at h
    refine hgathers.congr fun keyword next => ?_
    by_cases hnil : outcome = []
    · rw [hnil, List.isEmpty_nil, if_pos rfl, Prod.mk.injEq] at hchoice
      obtain ⟨rfl, rfl⟩ := hchoice
      simp [hsat.mp hnil]
      grind
    · rw [if_neg (mt List.isEmpty_iff.mp hnil), Prod.mk.injEq] at hchoice
      obtain ⟨rfl, rfl⟩ := hchoice
      simp [mt hsat.mpr hnil]
      grind

/-! ## Violated keywords -/

/--
The violations name the violated keywords at the path, and else they are those of nodes that the
value is handed to. No violated keyword is left out.
-/
structure Tells (node : SchemaNode) (apply : Apply) (sat : NodeId → Json → Prop) (value : Json)
    (path : Path) (violated : String → Prop) (violations : Violations) : Prop where
  sound : ∀ violation ∈ violations,
    (∃ keyword message, violated keyword ∧ violation = node.violation path keyword message) ∨
      ∃ child found, node.Hands sat value child ∧ apply child value path = .ok found ∧
        violation ∈ found
  complete : ∀ keyword, violated keyword → ∃ message, node.violation path keyword message ∈ violations

section

variable {violated violated' : String → Prop}

theorem Tells.congr (h : node.Tells apply sat value path violated violations)
    (hiff : ∀ keyword, violated keyword ↔ violated' keyword) :
    node.Tells apply sat value path violated' violations := by
  obtain rfl : violated = violated' := funext fun keyword => propext (hiff keyword)
  exact h

theorem tells_nil (h : ∀ keyword, ¬ violated keyword) :
    node.Tells apply sat value path violated [] :=
  ⟨nofun, fun keyword hviolated => (h keyword hviolated).elim⟩

theorem Tells.append (h : node.Tells apply sat value path violated found)
    (h' : node.Tells apply sat value path violated' violations) :
    node.Tells apply sat value path (fun keyword => violated keyword ∨ violated' keyword)
      (found ++ violations) := by
  constructor
  · intro violation hmem
    rcases List.mem_append.mp hmem with hmem | hmem
    · refine (h.sound violation hmem).imp_left ?_
      exact fun ⟨keyword, message, hviolated, heq⟩ => ⟨keyword, message, .inl hviolated, heq⟩
    · refine (h'.sound violation hmem).imp_left ?_
      exact fun ⟨keyword, message, hviolated, heq⟩ => ⟨keyword, message, .inr hviolated, heq⟩
  · rintro keyword (hviolated | hviolated)
    · exact (h.complete keyword hviolated).imp fun _ => List.mem_append_left _
    · exact (h'.complete keyword hviolated).imp fun _ => List.mem_append_right _

theorem tells_failures {failures : List Failure}
    (h : ∀ keyword, Fails failures keyword ↔ violated keyword) :
    node.Tells apply sat value path violated
      (failures.map fun failure => node.violation path failure.keyword failure.message) := by
  constructor
  · intro violation hmem
    obtain ⟨failure, hfailure, rfl⟩ := List.mem_map.mp hmem
    exact .inl ⟨_, _, (h _).mp ⟨failure, hfailure, rfl⟩, rfl⟩
  · intro keyword hviolated
    obtain ⟨failure, hfailure, rfl⟩ := (h keyword).mpr hviolated
    exact ⟨failure.message, List.mem_map_of_mem hfailure⟩

end

theorem tells_refViolations (h : node.refViolations apply value path = .ok violations) :
    node.Tells apply sat value path (fun _ => False) violations := by
  unfold refViolations at h
  split at h
  case h_1 target htarget =>
    exact ⟨fun violation hmem => .inr ⟨target, violations, .target htarget, h, hmem⟩, nofun⟩
  case h_2 =>
    obtain rfl := Except.ok.inj h
    exact tells_nil fun _ => not_false

theorem tells_ownViolations {options : EvaluationOptions}
    (h : node.ownViolations options value path = .ok violations) :
    node.Tells apply sat value path (fun keyword => node.value.Violates value keyword ∨
      node.ViolatesTyped options.assertFormats value keyword) violations := by
  simp only [ownViolations, Except.bind_eq_ok, Except.pure_eq_ok, Except.mapError_eq_ok] at h
  obtain ⟨failures, hfailures, rfl⟩ := h
  exact tells_failures fun keyword => fails_own hfailures

theorem fails_containsFailures {keywords : ArrayKeywords} {child : NodeId} {items : List Json}
    (hchild : keywords.contains = some child) :
    Fails (containsFailures keywords (countHolding sat child items)) keyword ↔
      keywords.Miscounts sat items keyword := by
  have hnone : countHolding sat child items < 1 ↔ ∀ item ∈ items, ¬ sat child item := by
    simp [countHolding]
  simp only [containsFailures, fails_append, fails_failLimit, decide_eq_true_eq]
  constructor
  · rintro (hleast | ⟨rfl, most, hmost, hmany⟩)
    · cases hminimum : keywords.minContains with
      | none =>
        rw [hminimum, fails_failIf, decide_eq_true_eq, hnone] at hleast
        exact hleast.1 ▸ .contains hchild hminimum hleast.2
      | some least =>
        rw [hminimum, fails_failIf, decide_eq_true_eq] at hleast
        exact hleast.1 ▸ .minContains hchild hminimum hleast.2
    · exact .maxContains hchild hmost hmany
  · rintro (⟨hcontains, hleast, hno⟩ | ⟨hcontains, hleast, hfew⟩ | ⟨hcontains, hmost, hmany⟩) <;>
      obtain rfl := Option.some.inj (hchild.symm.trans hcontains)
    · exact .inl (by rw [hleast]; exact fails_failIf.mpr ⟨rfl, decide_eq_true (hnone.mpr hno)⟩)
    · exact .inl (by rw [hleast]; exact fails_failIf.mpr ⟨rfl, decide_eq_true hfew⟩)
    · exact .inr ⟨rfl, _, hmost, hmany⟩

theorem tells_containsViolations (hd : Decides apply sat) {items : List Json}
    (h : node.containsViolations apply path items = .ok violations) :
    node.Tells apply sat value path (node.array.Miscounts sat items) violations := by
  unfold containsViolations at h
  split at h
  case h_1 hnone =>
    obtain rfl := Except.ok.inj h
    refine tells_nil fun keyword hmiscounts => ?_
    cases hmiscounts <;> simp_all
  case h_2 child hchild =>
    simp only [Except.bind_eq_ok, Except.pure_eq_ok] at h
    obtain ⟨count, hcount, rfl⟩ := h
    obtain rfl := countMatches_eq hd hcount
    exact tells_failures fun keyword => fails_containsFailures hchild

/-! ### Branches -/

theorem tells_branches {violated : String → Prop} {message : String} (branches : List NodeId)
    (hviolated : ∀ name, violated name ↔ name = keyword)
    (hshown : found = [] ∨ (∀ branch ∈ branches, node.Hands sat value branch) ∧
      ClosestBranch apply value path branches found) :
    node.Tells apply sat value path violated (node.violation path keyword message :: found) := by
  constructor
  · intro violation hmem
    rcases List.mem_cons.mp hmem with rfl | hmem
    · exact .inl ⟨keyword, message, (hviolated keyword).mpr rfl, rfl⟩
    · rcases hshown with rfl | ⟨hbranches, hclosest⟩
      · cases hmem
      · obtain ⟨branch, hbranch, happly⟩ := hclosest.outcome
        exact .inr ⟨branch, found, hbranches branch hbranch, happly, hmem⟩
  · intro name hname
    rw [(hviolated name).mp hname]
    exact ⟨message, List.mem_cons_self⟩

theorem tells_anyOfViolations (hd : Decides apply sat)
    (h : node.anyOfViolations apply value path = .ok violations) :
    node.Tells apply sat value path (fun keyword => keyword = "anyOf" ∧
      node.composition.anyOf ≠ [] ∧ ∀ child ∈ node.composition.anyOf, ¬ sat child value)
      violations := by
  have hnil := anyOfViolations_eq_nil hd h
  simp only [anyOfViolations, Except.bind_eq_ok] at h
  obtain ⟨failed, hfailed, h⟩ := h
  split at h
  case isTrue =>
    obtain rfl := Except.pure_eq_ok.mp h
    refine tells_nil ?_
    rintro keyword ⟨-, hne, hnone⟩
    obtain ⟨child, hchild, hsat⟩ := hnil.mp rfl hne
    exact hnone child hchild hsat
  case isFalse hne =>
    rw [List.isEmpty_iff] at hne
    obtain rfl := Except.pure_eq_ok.mp h
    simp only [List.cons_ne_nil, false_iff, not_forall, not_exists, not_and] at hnil
    obtain ⟨hsome, hnone⟩ := hnil
    obtain ⟨houtcomes, hfails⟩ := outcomes_of_failedBranches hfailed hne
    exact tells_branches _ (fun name => and_iff_left ⟨hsome, hnone⟩)
      (.inr ⟨fun branch hbranch => .anyOf hbranch hnone, houtcomes.closest hne hfails⟩)

open Classical in
theorem tells_oneOfViolations (hd : Decides apply sat)
    (h : node.oneOfViolations apply value path = .ok violations) :
    node.Tells apply sat value path (fun keyword => keyword = "oneOf" ∧
      node.composition.oneOf ≠ [] ∧
        node.composition.oneOf.countP (fun child => decide (sat child value)) ≠ 1) violations := by
  have hnil := oneOfViolations_eq_nil hd h
  simp only [oneOfViolations, Except.bind_eq_ok] at h
  obtain ⟨outcomes, houtcomes, h⟩ := h
  obtain ⟨-, hcount⟩ := branchOutcomes_count hd houtcomes
  rw [← length_matchedIndices] at hcount
  split at h
  case isTrue =>
    obtain rfl := Except.pure_eq_ok.mp h
    refine tells_nil ?_
    rintro keyword ⟨-, hne, hother⟩
    exact hother (hnil.mp rfl hne)
  case isFalse hneither =>
    rw [Bool.or_eq_true, List.isEmpty_iff, not_or] at hneither
    obtain rfl := Except.pure_eq_ok.mp h
    simp only [List.cons_ne_nil, false_iff, Classical.not_imp] at hnil
    have hviolated : ∀ name, (name = "oneOf" ∧ node.composition.oneOf ≠ [] ∧
        node.composition.oneOf.countP (fun child => decide (sat child value)) ≠ 1) ↔
        name = "oneOf" := fun name => and_iff_left hnil
    refine tells_branches node.composition.oneOf hviolated ?_
    split
    case isTrue hnone =>
      rw [List.isEmpty_iff] at hnone
      have hrefused : ∀ branch ∈ node.composition.oneOf, ¬ sat branch value := by
        rw [hnone, List.length_nil, eq_comm, List.countP_eq_zero] at hcount
        exact fun branch hbranch => by simpa using hcount branch hbranch
      have hclosest := (outcomes_of_branchOutcomes houtcomes).closest hneither.1
        (matchedIndices_eq_nil.mp hnone)
      exact .inr ⟨fun branch hbranch => .oneOf hbranch hrefused, hclosest⟩
    case isFalse => exact .inl rfl

theorem tells_notViolations (hd : Decides apply sat)
    (h : node.notViolations apply value path = .ok violations) :
    node.Tells apply sat value path (fun keyword => keyword = "not" ∧
      ∃ child, node.composition.negated = some child ∧ sat child value) violations := by
  unfold notViolations at h
  split at h
  case h_1 hnone =>
    obtain rfl := Except.ok.inj h
    exact tells_nil (by simp [hnone])
  case h_2 child hchild =>
    simp only [Except.bind_eq_ok, Except.pure_eq_ok, List.isEmpty_iff] at h
    obtain ⟨outcome, houtcome, rfl⟩ := h
    have hsat := hd _ _ _ _ houtcome
    split
    case isTrue hnil =>
      exact tells_branches []
        (fun name => and_iff_left ⟨child, hchild, hsat.mp hnil⟩) (.inl rfl)
    case isFalse hne =>
      refine tells_nil ?_
      rintro keyword ⟨-, other, hother, hother'⟩
      obtain rfl := Option.some.inj (hchild.symm.trans hother)
      exact hne (hsat.mpr hother')

/-! ## Whole nodes -/

/-- The violations are those that tell of violated keywords and the answers to what is asked. -/
def Divides (node : SchemaNode) (schema : CompiledSchema) (apply : Apply)
    (sat : NodeId → Json → Prop) (value : Json) (path : Path) (violated : String → Prop)
    (asked : String → Visit → Prop) (violations : Violations) : Prop :=
  ∃ told gathered, (∀ violation, violation ∈ violations ↔
    violation ∈ told ∨ violation ∈ gathered) ∧
    node.Tells apply sat value path violated told ∧ node.Gathers schema apply asked gathered

section

variable {violated violated' : String → Prop} {asked asked' : String → Visit → Prop}

theorem Tells.divides (h : node.Tells apply sat value path violated violations) :
    node.Divides schema apply sat value path violated (fun _ _ => False) violations :=
  ⟨violations, [], by simp, h, gathers_nil fun _ _ => not_false⟩

theorem Gathers.divides (h : node.Gathers schema apply asked violations) :
    node.Divides schema apply sat value path (fun _ => False) asked violations :=
  ⟨[], violations, by simp, tells_nil fun _ => not_false, h⟩

theorem Divides.append
    (h : node.Divides schema apply sat value path violated asked found)
    (h' : node.Divides schema apply sat value path violated' asked' violations) :
    node.Divides schema apply sat value path (fun keyword => violated keyword ∨ violated' keyword)
      (fun keyword next => asked keyword next ∨ asked' keyword next) (found ++ violations) := by
  obtain ⟨told, gathered, hmem, htells, hgathers⟩ := h
  obtain ⟨told', gathered', hmem', htells', hgathers'⟩ := h'
  refine ⟨told ++ told', gathered ++ gathered', fun violation => ?_, htells.append htells',
    hgathers.append hgathers'⟩
  simp only [List.mem_append, hmem, hmem']
  tauto

theorem Divides.congr (h : node.Divides schema apply sat value path violated asked violations)
    (hviolated : ∀ keyword, violated keyword ↔ violated' keyword)
    (hasked : ∀ keyword next, asked keyword next ↔ asked' keyword next) :
    node.Divides schema apply sat value path violated' asked' violations := by
  obtain ⟨told, gathered, hmem, htells, hgathers⟩ := h
  exact ⟨told, gathered, hmem, htells.congr hviolated, hgathers.congr hasked⟩

end

theorem divides_compositionViolations (hd : Decides apply sat)
    (h : node.compositionViolations schema apply value path = .ok violations) :
    node.Divides schema apply sat value path (node.composition.Violates sat value)
      (node.composition.Asks sat value path) violations := by
  simp only [compositionViolations, Except.bind_eq_ok, Except.pure_eq_ok] at h
  obtain ⟨all, hall, any, hany, one, hone, negated, hnegated, conditional, hconditional, rfl⟩ := h
  have hall' := gathers_collect (fun child _ hfound => gathers_descend hfound) hall
  refine (((((hall'.divides).append (tells_anyOfViolations hd hany).divides).append
    (tells_oneOfViolations hd hone).divides).append (tells_notViolations hd hnegated).divides).append
    (gathers_conditionViolations hd hconditional).divides).congr (fun keyword => ?_)
    fun keyword next => ?_
  · simp only [false_or, or_false]
    constructor
    · rintro ((⟨rfl, hne, hnone⟩ | ⟨rfl, hne, hcount⟩) | ⟨rfl, child, hchild, hsat⟩)
      · exact .anyOf hne hnone
      · exact .oneOf hne hcount
      · exact .not hchild hsat
    · rintro (⟨hne, hnone⟩ | ⟨hne, hcount⟩ | ⟨hchild, hsat⟩)
      · exact .inl (.inl ⟨rfl, hne, hnone⟩)
      · exact .inl (.inr ⟨rfl, hne, hcount⟩)
      · exact .inr ⟨rfl, _, hchild, hsat⟩
  · simp only [or_false]
    constructor
    · rintro (⟨child, hchild, rfl, rfl⟩ | ⟨condition, child, hcondition, rfl,
        ⟨hsat, hchild, rfl⟩ | ⟨hsat, hchild, rfl⟩⟩)
      · exact .allOf hchild
      · exact .consequent hcondition hsat hchild
      · exact .alternative hcondition hsat hchild
    · rintro (hchild | ⟨hcondition, hsat, hchild⟩ | ⟨hcondition, hsat, hchild⟩)
      · exact .inl ⟨_, hchild, rfl, rfl⟩
      · exact .inr ⟨_, _, hcondition, rfl, .inl ⟨hsat, hchild, rfl⟩⟩
      · exact .inr ⟨_, _, hcondition, rfl, .inr ⟨hsat, hchild, rfl⟩⟩

theorem divides_innerViolations (hd : Decides apply sat)
    (h : node.innerViolations schema apply value path = .ok violations) :
    node.Divides schema apply sat value path
      (fun keyword => ∃ items, value = .arr items ∧ node.array.Miscounts sat items keyword)
      (fun keyword next => (∃ items index item, value = .arr items ∧ items[index]? = some item ∧
        node.array.AsksItem path index item keyword next) ∨
        ∃ members, value = .obj members ∧ node.object.Asks path members keyword next)
      violations := by
  unfold innerViolations at h
  split at h
  case h_1 items =>
    simp only [arrayViolations, Except.bind_eq_ok, Except.pure_eq_ok] at h
    obtain ⟨inside, hinside, contained, hcontained, rfl⟩ := h
    have hitems := gathers_collect (fun entry _ hfound => gathers_itemViolations hfound) hinside
    refine (hitems.divides.append (tells_containsViolations hd hcontained).divides).congr
      (fun keyword => by simp) fun keyword next => ?_
    simp only [List.mem_zipIdx_iff_getElem?, Prod.exists]
    grind
  case h_2 members =>
    exact (gathers_objectViolations h).divides.congr (fun keyword => by simp)
      fun keyword next => by simp
  case h_3 hitems hmembers =>
    obtain rfl := Except.ok.inj h
    refine (tells_nil fun _ => not_false).divides.congr (fun keyword => iff_of_false not_false ?_)
      fun keyword next => iff_of_false not_false ?_
    · rintro ⟨items, hvalue, -⟩
      exact hitems items hvalue
    · rintro (⟨items, -, -, hvalue, -⟩ | ⟨members, hvalue, -⟩)
      · exact hitems items hvalue
      · exact hmembers members hvalue

/-- A node without a boolean reports what its keywords violate and ask, and nothing else. -/
theorem divides_violations (hboolean : node.boolean = none) (hd : Decides apply sat)
    {options : EvaluationOptions}
    (h : node.violations schema options apply value path = .ok violations) :
    node.Divides schema apply sat value path (node.Violates options.assertFormats sat value)
      (node.Asks sat value path) violations := by
  simp only [SchemaNode.violations, hboolean, Except.bind_eq_ok, Except.pure_eq_ok] at h
  obtain ⟨referred, hreferred, own, hown, inner, hinner, composed, hcomposed, rfl⟩ := h
  refine ((((tells_refViolations hreferred).divides.append (tells_ownViolations hown).divides).append
    (divides_innerViolations hd hinner)).append
    (divides_compositionViolations hd hcomposed)).congr (fun keyword => ?_) fun keyword next => ?_
  · constructor
    · rintro (((hfalse | hvalue | htyped) | ⟨items, rfl, hcount⟩) | hcomposition)
      · exact hfalse.elim
      · exact .value hvalue
      · exact .typed htyped
      · exact .contains hcount
      · exact .composition hcomposition
    · rintro (hvalue | htyped | hcount | hcomposition)
      · exact .inl (.inl (.inr (.inl hvalue)))
      · exact .inl (.inl (.inr (.inr htyped)))
      · exact .inl (.inr ⟨_, rfl, hcount⟩)
      · exact .inr hcomposition
  · constructor
    · rintro (((hfalse | hfalse) | ⟨items, index, item, rfl, hitem, hasked⟩ | ⟨members, rfl, hasked⟩) |
        hcomposition)
      · exact hfalse.elim
      · exact hfalse.elim
      · exact .item hitem hasked
      · exact .object hasked
      · exact .composition hcomposition
    · rintro (⟨hitem, hasked⟩ | hasked | hcomposition)
      · exact .inl (.inr (.inl ⟨_, _, _, rfl, hitem, hasked⟩))
      · exact .inl (.inr (.inr ⟨_, rfl, hasked⟩))
      · exact .inr hcomposition

theorem target_subset {child : NodeId} (hboolean : node.boolean = none)
    {options : EvaluationOptions} (hchild : node.refTarget = some child)
    (h : node.violations schema options apply value path = .ok violations) :
    ∃ found, apply child value path = .ok found ∧ found ⊆ violations := by
  simp only [SchemaNode.violations, hboolean, Except.bind_eq_ok, Except.pure_eq_ok, refViolations,
    hchild] at h
  obtain ⟨referred, hreferred, own, -, inner, -, composed, -, rfl⟩ := h
  refine ⟨referred, hreferred, fun violation hmem => ?_⟩
  simp only [List.mem_append]
  exact .inl (.inl (.inl hmem))

end SchemaNode

end JsonSchema
