import JsonSchema.Proofs.Evaluation.SchemaPath
import JsonSchema.Proofs.Evaluation.Shown
import JsonSchema.Proofs.Report.Controls
import JsonSchema.Proofs.Report.Order
import JsonSchema.Proofs.Schema.Result

/-!
# Lines of reports

A line shows the names of a path as they are, and so do some messages with names and patterns. All
other values are shown as documents. A line of a report goes on behind its end exactly where such a
raw text holds a control character.
-/

namespace JsonSchema

/-! ## Raw texts -/

def quotingKeywords : List String :=
  ["pattern", "format", "required", "dependentRequired", "additionalProperties", "propertyNames",
    "dependentSchemas"]

namespace SchemaNode

variable {node : SchemaNode} {value : Json} {keyword message : String}

/-- The texts that stand as they are in the message about a keyword that a value violates. -/
inductive Quotes (node : SchemaNode) : Json → String → List String → Prop where
  | nothing {value : Json} {keyword : String} (h : keyword ∉ quotingKeywords) :
      Quotes node value keyword []
  | pattern {value : Json} {pattern : Pattern} (h : node.string.pattern = some pattern) :
      Quotes node value "pattern" [pattern.source]
  | format {value : Json} {name : String} (h : node.string.format = some name) :
      Quotes node value "format" [name]
  | required {value : Json} {name : String} (h : name ∈ node.object.required) :
      Quotes node value "required" [name]
  | dependentRequired {members : Members Json} {trigger name : String} {names : List String}
      (h : (trigger, names) ∈ node.object.dependentRequired) (hname : name ∈ names)
      (htrigger : trigger ∈ members.names) :
      Quotes node (.obj members) "dependentRequired" [name, trigger]
  | property {members : Members Json} {name keyword : String}
      (hkeyword : keyword ∈ ["additionalProperties", "propertyNames", "dependentSchemas"])
      (hname : name ∈ members.names) : Quotes node (.obj members) keyword [name]

def quotable (node : SchemaNode) : List String :=
  (node.string.pattern.map (·.source)).toList ++ node.string.format.toList ++
    node.object.required ++ node.object.dependentRequired.flatMap (·.2)

/-- The message about a keyword has no control characters but those of the texts that it quotes. -/
def Quotes.In (node : SchemaNode) (value : Json) (keyword message : String) : Prop :=
  ∃ raw, node.Quotes value keyword raw ∧ controls message = raw.flatMap controls

theorem quotes_clean (hkeyword : keyword ∉ quotingKeywords) (hmessage : Clean message) :
    Quotes.In node value keyword message :=
  ⟨[], .nothing hkeyword, clean_iff.1 hmessage⟩

theorem controls_between {before text after : String} (hbefore : Clean before)
    (hafter : Clean after) : controls (before ++ text ++ after) = [text].flatMap controls := by
  simp [clean_iff.1 hbefore, clean_iff.1 hafter]

theorem quotes_failIf {condition : Bool} {failure : Failure}
    (h : failure ∈ failIf condition keyword message)
    (hmessage : condition = true → Quotes.In node value keyword message) :
    Quotes.In node value failure.keyword failure.message := by
  unfold failIf at h
  split at h
  case isTrue hcondition =>
    rw [List.mem_singleton.1 h]
    exact hmessage hcondition
  case isFalse => cases h

theorem quotes_failLimit {α : Type} {limit : Option α} {breaks : α → Bool} {text : α → String}
    {failure : Failure} (h : failure ∈ failLimit limit breaks keyword text)
    (hmessage : ∀ a, limit = some a → Quotes.In node value keyword (text a)) :
    Quotes.In node value failure.keyword failure.message := by
  cases limit with
  | none => cases h
  | some a => exact quotes_failIf h fun _ => hmessage a rfl

theorem quotes_limit {α : Type} {limit : Option α} {breaks : α → Bool} {text : α → String}
    {failure : Failure} (h : failure ∈ failLimit limit breaks keyword text)
    (hkeyword : keyword ∉ quotingKeywords) (hmessage : ∀ a, Clean (text a)) :
    Quotes.In node value failure.keyword failure.message :=
  quotes_failLimit h fun a _ => quotes_clean hkeyword (hmessage a)

/-! ### Checks of the value alone -/

theorem clean_typeNames (types : List Json.Kind) : Clean (typeNames types) := by
  have hname : ∀ kind : Json.Kind, Clean kind.name := by
    intro kind
    cases kind <;> decide
  unfold typeNames
  split
  · decide
  · exact clean_intercalate (by decide) (List.forall_mem_map.mpr fun kind _ => hname kind)

variable {failure : Failure}

theorem quotes_value
    (h : failure ∈ node.value.checkType value ++ node.value.checkOptions value) :
    Quotes.In node value failure.keyword failure.message := by
  have hkind : Clean value.kind.name := by cases value.kind <;> decide
  simp only [ValueKeywords.checkType, ValueKeywords.checkOptions, List.mem_append] at h
  rcases h with h | h | h
  · exact quotes_limit h (by decide) fun types => by simp +decide [clean_typeNames, hkind]
  · exact quotes_limit h (by decide) fun options => by simp +decide
  · exact quotes_limit h (by decide) fun expected => by simp +decide

theorem quotes_number {n : Number} (h : failure ∈ node.number.check n) :
    Quotes.In node value failure.keyword failure.message := by
  simp only [NumberKeywords.check, List.mem_append] at h
  rcases h with (((h | h) | h) | h) | h <;>
    exact quotes_limit h (by decide) fun limit => by simp +decide

theorem quotes_array {items : List Json} (h : failure ∈ node.array.check items) :
    Quotes.In node value failure.keyword failure.message := by
  simp only [ArrayKeywords.check, List.mem_append] at h
  rcases h with (h | h) | h <;> exact quotes_limit h (by decide) fun limit => by simp +decide

theorem quotes_contains {found : Nat} (h : failure ∈ containsFailures node.array found) :
    Quotes.In node value failure.keyword failure.message := by
  rw [containsFailures, List.mem_append] at h
  rcases h with h | h
  · split at h
    · exact quotes_failIf h fun _ => quotes_clean (by decide) (by decide)
    · exact quotes_failIf h fun _ => quotes_clean (by decide) (by simp +decide)
  · exact quotes_limit h (by decide) fun most => by simp +decide

theorem quotes_string {s : String} (h : failure ∈ node.string.check s) :
    Quotes.In node value failure.keyword failure.message := by
  simp only [StringKeywords.check, List.mem_append] at h
  rcases h with (h | h) | h
  · exact quotes_limit h (by decide) fun limit => by simp +decide
  · exact quotes_limit h (by decide) fun limit => by simp +decide
  · exact quotes_failLimit h fun pattern hpattern =>
      ⟨_, .pattern hpattern, controls_between (by simp +decide) (by decide)⟩

theorem quotes_format {assertFormats : Bool} {failures : List Failure}
    (hformat : node.formatFailures assertFormats value = .ok failures) (h : failure ∈ failures) :
    Quotes.In node value failure.keyword failure.message := by
  unfold formatFailures at hformat
  split at hformat
  case h_1 text =>
    split at hformat
    case isTrue =>
      unfold StringKeywords.checkFormat at hformat
      split at hformat
      case h_1 =>
        cases hformat
        cases h
      case h_2 name hname =>
        obtain ⟨outcome, -, rfl⟩ := Except.map_eq_ok.mp hformat
        exact quotes_failIf h fun _ =>
          ⟨_, .format hname, controls_between (by simp +decide) (by decide)⟩
    case isFalse =>
      cases hformat
      cases h
  case h_2 =>
    cases hformat
    cases h

theorem quotes_object {members : Members Json} (h : failure ∈ node.object.check members) :
    Quotes.In node (.obj members) failure.keyword failure.message := by
  simp only [ObjectKeywords.check, List.mem_append, List.mem_flatMap] at h
  rcases h with ((⟨name, hname, h⟩ | h) | h) | ⟨⟨trigger, names⟩, hentry, h⟩
  · exact quotes_failIf h fun _ =>
      ⟨_, .required hname, controls_between (by decide) (by decide)⟩
  · exact quotes_limit h (by decide) fun limit => by simp +decide
  · exact quotes_limit h (by decide) fun limit => by simp +decide
  · unfold missingDependencies at h
    split at h
    case isTrue hhas =>
      obtain ⟨name, hname, h⟩ := List.mem_flatMap.mp h
      obtain ⟨present, hget⟩ := Option.isSome_iff_exists.mp hhas
      have htrigger := List.mem_map_of_mem (f := Prod.fst) (Members.mem_of_get? hget)
      refine quotes_failIf h fun _ => ⟨_, .dependentRequired hentry hname htrigger, ?_⟩
      have hbefore : Clean "property '" := by decide
      have hbetween : Clean "' is required when '" := by decide
      have hafter : Clean "' is present" := by decide
      simp [clean_iff.1 hbefore, clean_iff.1 hbetween, clean_iff.1 hafter]
    case isFalse => cases h

theorem quotes_failures (h : failure ∈ node.failures value) :
    Quotes.In node value failure.keyword failure.message := by
  unfold failures at h
  rcases List.mem_append.mp h with h | h
  · exact quotes_value h
  · split at h
    · exact quotes_number h
    · exact quotes_array h
    · exact quotes_object h
    · exact quotes_string h
    · cases h

/-! ### Messages of a node -/

theorem Finds.quotes (h : node.Finds value keyword message) :
    Quotes.In node value keyword message := by
  cases h with
  | failure h => exact quotes_failures h
  | format hformat h => exact quotes_format hformat h
  | contains _ h => exact quotes_contains h
  | anyOf => exact quotes_clean (by decide) (by simp +decide)
  | oneOf _ found =>
    have hfound : Clean (", ".intercalate (found.map natText)) :=
      clean_intercalate (by decide) (List.forall_mem_map.mpr fun n _ => clean_natText n)
    refine quotes_clean (by decide) ?_
    split <;> simp +decide [hfound]
  | not => exact quotes_clean (by decide) (by decide)

structure Named (node : SchemaNode) : Prop where
  keyword : ∀ keyword, node.Has keyword → Clean keyword
  first : node.array.firstItems ≠ [] → node.array.firstItemsKeyword ∈ ["prefixItems", "items"]
  rest : node.array.items.isSome = true → node.array.itemsKeyword ∈ ["items", "additionalItems"]

theorem quotes_plain (hkeyword : keyword ∉ quotingKeywords) (hclean : Clean keyword) :
    Quotes.In node value (Applicator.plain keyword).keyword (Applicator.plain keyword).message :=
  quotes_clean hkeyword (by simp +decide [Applicator.plain, hclean])

theorem Uses.quotes (hnamed : node.Named) {applicator : Applicator}
    (h : node.Uses value applicator) :
    Quotes.In node value applicator.keyword applicator.message := by
  have hnames : ∀ keyword ∈ ["prefixItems", "items", "additionalItems", "allOf", "anyOf", "oneOf",
      "not", "then", "else"], keyword ∉ quotingKeywords ∧ Clean keyword := by decide
  cases h with
  | firstItem hfirst =>
    have hname := hnames _ (List.mem_append_left _ (hnamed.first hfirst))
    exact quotes_plain hname.1 hname.2
  | item hrest =>
    have hname := hnames _ (List.mem_cons_of_mem _ (List.mem_append_left _ (hnamed.rest hrest)))
    exact quotes_clean hname.1 (by simp +decide)
  | property => exact quotes_plain (by decide) (by decide)
  | pattern => exact quotes_plain (by decide) (by decide)
  | additional _ hname =>
    exact ⟨_, .property (by simp) hname, controls_between (by decide) (by decide)⟩
  | name _ hname =>
    exact ⟨_, .property (by simp) hname, controls_between (by decide) (by decide)⟩
  | dependent _ hname =>
    exact ⟨_, .property (by simp) hname, controls_between (by decide) (by decide)⟩
  | @composed _ keyword h =>
    have hpresent : keyword ∈ node.composition.present.map (·.1) := List.mem_map_of_mem h
    have hname := hnames _
      (List.mem_append_right ["prefixItems", "items", "additionalItems"] hpresent)
    exact quotes_plain hname.1 hname.2

end SchemaNode

/-! ## Lines -/

theorem Violation.controls_line {v : Violation} (hkeyword : Clean v.keyword) :
    controls v.line = v.path.names.flatMap controls ++ controls v.message := by
  have hplace : controls (if v.pointer == "" then rootLabel else v.pointer) =
      v.path.names.flatMap controls := by
    rw [← controls_pointer]
    split
    case isTrue h =>
      rw [← Violation.pointer, beq_iff_eq.1 h]
      decide
    case isFalse => rfl
  have hcolon : Clean ": " := by decide
  have hdash : Clean " — " := by decide
  rw [line, controls_append, controls_append, controls_append, controls_append, hplace,
    clean_iff.1 hcolon, clean_iff.1 hkeyword, clean_iff.1 hdash]
  simp

/-- A line holds the control characters of the names on its path and of the texts it quotes. -/
theorem SchemaNode.Says.controls_line {node : SchemaNode} {value : Json} {path : Path}
    {violation : Violation} (hnamed : node.boolean = none → node.Named)
    (h : node.Says value path violation) : ∃ raw, node.Quotes value violation.keyword raw ∧
      controls violation.line = (violation.path.names ++ raw).flatMap controls := by
  have hline : ∀ {v : Violation}, Clean v.keyword → Quotes.In node value v.keyword v.message →
      ∃ raw, node.Quotes value v.keyword raw ∧
        controls v.line = (v.path.names ++ raw).flatMap controls := by
    rintro v hkeyword ⟨raw, hraw, hmessage⟩
    exact ⟨raw, hraw, by rw [Violation.controls_line hkeyword, hmessage, List.flatMap_append]⟩
  cases h with
  | refused hboolean =>
    have hkeyword : Clean "false" := by decide
    have hmessage : Clean "no value is allowed by this schema" := by decide
    exact hline hkeyword (quotes_clean (by simp [quotingKeywords]) hmessage)
  | own hboolean h => exact hline ((hnamed hboolean).keyword _ h.has) h.quotes
  | applied hboolean h happlies =>
    exact hline ((hnamed hboolean).keyword _ h.has) (h.quotes (hnamed hboolean))

/-! ## Names of an instance -/

def Json.HasName (document : Json) (name : String) : Prop :=
  ∃ tokens members, document.Leads tokens (.obj members) ∧ name ∈ Members.names members

/-- The value is part of the instance or one of its names, and so are the names on the path. -/
structure Inside (instance_ value : Json) (path : Path) : Prop where
  value : (∃ tokens, instance_.Leads tokens value) ∨ ∃ name, value = .str name
  names : ∀ name ∈ path.names, instance_.HasName name

section

variable {instance_ value value' : Json} {path path' : Path} {node : SchemaNode} {child : NodeId}
  {schema : CompiledSchema}

theorem inside_root (instance_ : Json) : Inside instance_ instance_ [] :=
  ⟨.inl ⟨[], .root⟩, nofun⟩

theorem Inside.hasName {members : Members Json} {name : String}
    (h : Inside instance_ (.obj members) path) (hname : name ∈ members.names) :
    instance_.HasName name := by
  rcases h.value with ⟨tokens, hleads⟩ | ⟨other, hother⟩
  · exact ⟨tokens, members, hleads, hname⟩
  · cases hother

theorem Inside.applies (h : Inside instance_ value path)
    (happlies : node.Applies value path child value' path') : Inside instance_ value' path' := by
  cases happlies with
  | inPlace => exact h
  | item _ hitem =>
    refine ⟨?_, by simpa [Path.names] using h.names⟩
    rcases h.value with ⟨tokens, hleads⟩ | ⟨other, hother⟩
    · exact .inl ⟨_, hleads.item hitem⟩
    · cases hother
  | @member members _ _ name _ _ hmember =>
    refine ⟨?_, ?_⟩
    · rcases h.value with ⟨tokens, hleads⟩ | ⟨other, hother⟩
      · exact .inl ⟨_, hleads.member hmember⟩
      · cases hother
    · have hname := h.hasName (List.mem_map_of_mem hmember)
      intro other hother
      rw [Path.names, List.filterMap_append, List.mem_append] at hother
      rcases hother with hother | hother
      · exact h.names other hother
      · rwa [show other = name by simpa using hother]
  | name => exact ⟨.inr ⟨_, rfl⟩, h.names⟩

theorem Inside.reaches {visit next : Visit} (h : Inside instance_ visit.value visit.path)
    (hreach : schema.Reaches visit next) : Inside instance_ next.value next.path := by
  induction hreach with
  | refl => exact h
  | tail _ hnext ih =>
    obtain ⟨node, -, happlies⟩ := hnext
    exact ih.applies happlies

theorem Inside.reported {violation : Violation} (h : Inside instance_ value path)
    (hspoken : node.Says value path violation) :
    ∀ name ∈ violation.path.names, instance_.HasName name := by
  cases hspoken with
  | refused | own => exact h.names
  | applied _ _ happlies => exact (h.applies happlies).names

theorem Inside.quoted {keyword : String} {raw : List String} (h : Inside instance_ value path)
    (hraw : node.Quotes value keyword raw) :
    ∀ text ∈ raw, text ∈ node.quotable ∨ instance_.HasName text := by
  cases hraw with
  | nothing => exact nofun
  | pattern hpattern => simp [SchemaNode.quotable, hpattern]
  | format hformat => simp [SchemaNode.quotable, hformat]
  | required hname => simp [SchemaNode.quotable, hname]
  | dependentRequired hentry hname htrigger =>
    rw [List.forall_mem_cons, List.forall_mem_singleton]
    refine ⟨.inl ?_, .inr (h.hasName htrigger)⟩
    exact List.mem_append_right _ (List.mem_flatMap.2 ⟨_, hentry, hname⟩)
  | property _ hname => exact List.forall_mem_singleton.2 (.inr (h.hasName hname))

end

/-! ## Compiled schemas -/

theorem SchemaReading.named {c : Compilation} {site : CompileM.Site} {members : Members Json}
    {node : SchemaNode} (hread : SchemaReading c site members node) : node.Named := by
  have hclean : ∀ keyword ∈ assertionKeywords, Clean keyword := by decide +kernel
  have hitems := hread.array.items
  unfold ItemSchemaNodes at hitems
  split at hitems
  case h_1 =>
    have hfirst : node.array.firstItemsKeyword = "items" := hitems.firstKeyword
    exact ⟨fun keyword h => hclean keyword (hread.mem_assertionKeywords h),
      fun _ => by simp [hfirst], fun hrest => List.mem_cons_of_mem _ (by
        rw [show node.array.itemsKeyword = _ from hitems.restKeyword hrest]
        exact List.mem_singleton_self _)⟩
  case h_2 =>
    have hfirst : node.array.firstItemsKeyword = "prefixItems" := hitems.firstKeyword
    have hrest : node.array.itemsKeyword = "items" := hitems.restKeyword
    exact ⟨fun keyword h => hclean keyword (hread.mem_assertionKeywords h),
      fun _ => by simp [hfirst], fun _ => by simp [hrest]⟩

theorem named_of_compiled {options : CompileOptions} {document : Json} {schema : CompiledSchema}
    (hcompile : (runCompile options document).result = .ok schema) {id : NodeId} {node : SchemaNode}
    (hnode : schema.node? id = some node) (hboolean : node.boolean = none) : node.Named := by
  obtain ⟨c, hc, rfl⟩ := finished_of_result hcompile
  obtain ⟨site, value, node, hbuilt, rfl⟩ := hc.built_of_node? hnode
  have hreading := hbuilt.reading c (Compilation.Extends.refl c)
  cases value with
  | bool b =>
    rw [show node = _ from hreading] at hboolean
    cases hboolean
  | obj members =>
    have hnamed : node.Named := SchemaReading.named hreading
    exact ⟨hnamed.keyword, hnamed.first, hnamed.rest⟩
  | _ => exact hreading.elim

/-! ## Reports -/

namespace Report

theorem controls_remarkCommand (report : Report) (remark : Remark) :
    controls (report.remarkCommand remark) =
      controls report.schemaPath.text ++ controls remark.message := by
  have hstart : Clean "::warning file=" := by decide
  have hcolons : Clean "::" := by decide
  rw [clean_iff] at hstart hcolons
  unfold remarkCommand
  simp only [controls_append, hstart, hcolons, List.nil_append, List.append_nil]

theorem controls_violationCommand (report : Report) (v : Violation) :
    controls (report.violationCommand v) = controls report.dataPath.text ++ controls v.line := by
  have hstart : Clean "::error file=" := by decide
  have hline : Clean ",line=" := by decide
  have hcolons : Clean "::" := by decide
  rw [clean_iff] at hstart hline hcolons
  unfold violationCommand
  simp only [controls_append, hstart, hline, hcolons, clean_iff.1 (clean_intText _),
    List.nil_append, List.append_nil]

end Report

/--
A line of a report holds exactly the control characters of the names on its path and of the texts
that its message quotes, and a command those of its file and its line or remark. A report of names,
quoted texts, files and remarks without control characters has one line for each entry.
-/
theorem lines_break_with_raw_texts {options : CompileOptions} {document : Json}
    {schema : CompiledSchema} (hcompile : (runCompile options document).result = .ok schema)
    {evaluation : EvaluationOptions} {instance_ : Json} (report : Report)
    (hvalidate : schema.validateShown evaluation instance_ = .ok report.violations) :
    report.violations.lines.length = report.violations.length ∧
    report.commands.length = report.remarks.length + report.violations.length ∧
    (∀ v ∈ report.violations, ∃ there node raw, schema.Reaches (.root instance_) there ∧
      schema.node? there.id = some node ∧ node.Quotes there.value v.keyword raw ∧
        controls v.line = (v.path.names ++ raw).flatMap controls ∧
        controls (report.violationCommand v) = controls report.dataPath.text ++ controls v.line) ∧
    (∀ remark ∈ report.remarks, controls (report.remarkCommand remark) =
      controls report.schemaPath.text ++ controls remark.message) ∧
    ((∀ name, instance_.HasName name → Clean name) →
      (∀ id node, schema.node? id = some node → ∀ text ∈ node.quotable, Clean text) →
        (∀ line ∈ report.violations.lines, Clean line) ∧
          (Clean report.dataPath.text → Clean report.schemaPath.text →
            (∀ remark ∈ report.remarks, Clean remark.message) →
              ∀ command ∈ report.commands, Clean command)) := by
  have hvalidate' : schema.validate evaluation instance_ = .ok report.violations :=
    ((CompiledSchema.validateShown_shows schema evaluation instance_).resolve_left
      fun h => by rw [hvalidate] at h; cases h) ▸ hvalidate
  have horigin : ∀ v ∈ report.violations, ∃ there node raw,
      schema.Reaches (.root instance_) there ∧ schema.node? there.id = some node ∧
        node.Says there.value there.path v ∧ node.Quotes there.value v.keyword raw ∧
          controls v.line = (v.path.names ++ raw).flatMap controls := by
    intro v hv
    obtain ⟨there, node, hreach, hspeaks⟩ := CompiledSchema.speaks_of_validate hvalidate' hv
    obtain ⟨raw, hraw, hline⟩ :=
      hspeaks.spoken.controls_line (named_of_compiled hcompile hspeaks.node?)
    exact ⟨there, node, raw, hreach, hspeaks.node?, hspeaks.spoken, hraw, hline⟩
  refine ⟨?_, ?_, ?_, fun remark _ => report.controls_remarkCommand remark, ?_⟩
  · rw [Violations.lines, List.length_map, report.violations.sorted_perm.length_eq]
  · rw [Report.commands, List.length_append, List.length_map, List.length_map,
      report.violations.sorted_perm.length_eq]
  · intro v hv
    obtain ⟨there, node, raw, hreach, hnode, -, hraw, hline⟩ := horigin v hv
    exact ⟨there, node, raw, hreach, hnode, hraw, hline, report.controls_violationCommand v⟩
  · intro hnames hquotable
    have hclean : ∀ v ∈ report.violations.sorted, Clean v.line := by
      intro v hv
      obtain ⟨there, node, raw, hreach, hnode, hspoken, hraw, hline⟩ :=
        horigin v (report.violations.sorted_perm.mem_iff.1 hv)
      have hinside := (inside_root instance_).reaches hreach
      rw [clean_iff, hline, List.flatMap_eq_nil_iff]
      intro text htext
      rcases List.mem_append.1 htext with htext | htext
      · exact clean_iff.1 (hnames text (hinside.reported hspoken text htext))
      · rcases hinside.quoted hraw text htext with htext | htext
        · exact clean_iff.1 (hquotable _ node hnode text htext)
        · exact clean_iff.1 (hnames text htext)
    refine ⟨List.forall_mem_map.2 hclean, fun hdata hschema hremarks => ?_⟩
    refine List.forall_mem_append.2 ⟨List.forall_mem_map.2 fun remark hremark => ?_,
      List.forall_mem_map.2 fun v hv => ?_⟩
    · rw [clean_iff, report.controls_remarkCommand, clean_iff.1 hschema,
        clean_iff.1 (hremarks remark hremark)]
      rfl
    · rw [clean_iff, report.controls_violationCommand, clean_iff.1 hdata,
        clean_iff.1 (hclean v hv)]
      rfl

def brokenName : Json :=
  .obj [("properties", .obj [("a\nb", .obj [("type", .str "string")])]),
    ("required", .arr [.str "c"])]

/-- The line about the first property goes on behind the feed, and the other line stays whole. -/
theorem brokenName_breaks : ∃ schema broken whole,
    (runCompile ⟨10, false, []⟩ brokenName).result = .ok schema ∧
      schema.validateShown ⟨10, false⟩ (.obj [("a\nb", .int 1), ("c", .null)]) = .ok broken ∧
      broken.lines = ["/a\nb: type — 1 is not of type string (got integer)"] ∧
      (∀ v ∈ broken, ∃ there node raw,
        schema.Reaches (.root (.obj [("a\nb", .int 1), ("c", .null)])) there ∧
          schema.node? there.id = some node ∧ node.Quotes there.value v.keyword raw ∧
            controls v.line = (v.path.names ++ raw).flatMap controls) ∧
      schema.validateShown ⟨10, false⟩ (.obj []) = .ok whole ∧
      whole.lines = ["<root>: required — missing required property 'c'"] ∧
      ∀ line ∈ whole.lines, Clean line := by
  have hrun : (runCompile ⟨10, false, []⟩ brokenName).result.toOption.map (fun schema =>
      ((schema.validateShown ⟨10, false⟩
          (.obj [("a\nb", .int 1), ("c", .null)])).toOption.map (·.lines),
        (schema.validateShown ⟨10, false⟩ (.obj [])).toOption.map (·.lines),
        schema.nodes.toList.all fun node => node.quotable.all fun text => decide (Clean text))) =
      some (some ["/a\nb: type — 1 is not of type string (got integer)"],
        some ["<root>: required — missing required property 'c'"], true) := by
    decide +kernel
  simp only [Option.map_eq_some_iff, Except.toOption_eq_some, Prod.mk.injEq] at hrun
  obtain ⟨schema, hschema, ⟨broken, hbroken, hlines⟩, ⟨whole, hwhole, hlines'⟩, hquotable⟩ := hrun
  have hleads : ∀ tokens value, (Json.obj []).Leads tokens value → value = .obj [] := by
    intro tokens value h
    induction h with
    | root => rfl
    | member _ hvalue ih =>
      cases ih
      cases hvalue
    | item _ _ ih => cases ih
  have hnames : ∀ name, (Json.obj []).HasName name → Clean name := by
    rintro name ⟨tokens, members, hmembers, hname⟩
    cases hleads _ _ hmembers
    cases hname
  have hclean : ∀ id node, schema.node? id = some node → ∀ text ∈ node.quotable, Clean text := by
    intro id node hnode text htext
    have hmem := Array.mem_toList_iff.2 (Array.mem_of_getElem? hnode)
    exact of_decide_eq_true (List.all_eq_true.1 (List.all_eq_true.1 hquotable node hmem) text htext)
  have hfirst := lines_break_with_raw_texts hschema
    ⟨.ofText "d.json", .ofText "s.json", broken, [], []⟩ hbroken
  have hsecond := lines_break_with_raw_texts hschema
    ⟨.ofText "d.json", .ofText "s.json", whole, [], []⟩ hwhole
  refine ⟨schema, broken, whole, hschema, hbroken, hlines, fun v hv => ?_, hwhole, hlines',
    (hsecond.2.2.2.2 hnames hclean).1⟩
  obtain ⟨there, node, raw, hreach, hnode, hraw, hline, -⟩ := hfirst.2.2.1 v hv
  exact ⟨there, node, raw, hreach, hnode, hraw, hline⟩

end JsonSchema
