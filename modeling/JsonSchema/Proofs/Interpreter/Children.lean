import JsonSchema.Proofs.Interpreter.Values
import JsonSchema.Proofs.Schema.Reading

/-!
# Keywords with schemas in them

When nodes hold of the values that the interpreter allows by their schemas, a keyword with such
nodes asks what the interpreter asks of its schemas.
-/

namespace JsonSchema.Interpreter

open CompileM

variable {c : Compilation} {site : Site} {schema : Members Json} {keyword : String}
  {sat : NodeId → Json → Prop} {apply : Json → Json → Bool} {value : Json}

/-! ## Nodes and schemas -/

/-- A node holds of the values that a schema allows. -/
def Same (sat : NodeId → Json → Prop) (apply : Json → Json → Bool) (id : NodeId) (inner : Json) :
    Prop :=
  ∀ value, sat id value ↔ apply inner value = true

def Agrees (c : Compilation) (key : String) (sat : NodeId → Json → Prop)
    (apply : Json → Json → Bool) : Prop :=
  ∀ pointer inner id, c.NodeOf key pointer inner id → Same sat apply id inner

theorem Agrees.child (h : Agrees c site.key sat apply) {child : Option NodeId}
    (hchild : KeywordNode c site schema keyword child) :
    Option.Rel (Same sat apply) child (schema.get? keyword) := by
  unfold KeywordNode at hchild
  revert hchild
  generalize schema.get? keyword = found
  rintro (hnode | _)
  · exact .some (h _ _ _ hnode)
  · exact .none

theorem Agrees.items (h : Agrees c site.key sat apply) {items : List Json} {children : List NodeId}
    (hitems : ItemNodes c site keyword items children) :
    List.Forall₂ (Same sat apply) children items := by
  have hentries : List.Forall₂ (fun id (entry : Json × Nat) => Same sat apply id entry.1) children
      items.zipIdx := List.Forall₂.imp (fun _ _ hnode => h _ _ _ hnode) hitems
  rwa [← List.forall₂_map_right_iff, List.zipIdx_map_fst] at hentries

theorem Agrees.members (h : Agrees c site.key sat apply) {members : Members Json}
    {children : Members NodeId} (hmembers : MemberNodes c site keyword members children) :
    List.Forall₂ (fun child member => child.1 = member.1 ∧ Same sat apply child.2 member.2) children
      members :=
  List.Forall₂.imp (fun _ _ hnode => ⟨hnode.1, h _ _ _ hnode.2⟩) hmembers

/-! ## One schema -/

theorem asks_of_rel {child : Option NodeId} {check : Json → Bool} {holds : NodeId → Prop}
    (h : Option.Rel (Same sat apply) child (schema.get? keyword))
    (heq : ∀ id inner, Same sat apply id inner → (check inner = true ↔ holds id)) :
    asks schema keyword check = true ↔ ∀ id ∈ child, holds id := by
  rw [asks_iff]
  revert h
  generalize schema.get? keyword = found
  rintro (hsame | _)
  · simpa using heq _ _ hsame
  · simp

section

variable {child : Option NodeId} {found : Option Json}

theorem isSome_of_rel (h : Option.Rel (Same sat apply) child found) :
    found.isSome = child.isSome := by
  cases h <;> rfl

theorem all_of_rel (h : Option.Rel (Same sat apply) child found) :
    found.all (fun inner => apply inner value) = true ↔ ∀ id ∈ child, sat id value := by
  cases h with
  | none => simp
  | some hsame => simp [hsame value]

end

theorem asks_apply {child : Option NodeId}
    (h : Option.Rel (Same sat apply) child (schema.get? keyword)) :
    asks schema keyword (fun inner => apply inner value) = true ↔ ∀ id ∈ child, sat id value :=
  all_of_rel h

/-! ## Lists of schemas -/

section

variable {children : List NodeId} {items : List Json}

theorem all_apply (h : List.Forall₂ (Same sat apply) children items) :
    items.all (fun inner => apply inner value) = true ↔ ∀ id ∈ children, sat id value := by
  induction h with
  | nil => simp
  | cons hsame _ ih => simp [ih, hsame value]

theorem any_apply (h : List.Forall₂ (Same sat apply) children items) :
    items.any (fun inner => apply inner value) = true ↔ ∃ id ∈ children, sat id value := by
  induction h with
  | nil => simp
  | cons hsame _ ih => simp [ih, hsame value]

open Classical in
theorem countP_apply (h : List.Forall₂ (Same sat apply) children items) :
    items.countP (fun inner => apply inner value) =
      children.countP fun id => decide (sat id value) := by
  induction h with
  | nil => rfl
  | cons hsame _ ih => simp [List.countP_cons, ih, hsame value]

theorem isEmpty_iff (h : List.Forall₂ (Same sat apply) children items) :
    items.isEmpty = true ↔ children = [] := by
  cases h <;> simp

theorem zip_apply {values : List Json} (h : List.Forall₂ (Same sat apply) children items) :
    (items.zip values).all (fun (inner, value) => apply inner value) = true ↔
      ∀ i : Nat, ∀ id ∈ children[i]?, ∀ value ∈ values[i]?, sat id value := by
  induction h generalizing values with
  | nil => simp
  | cons hsame _ ih =>
    cases values with
    | nil => simp
    | cons value rest =>
      rw [List.zip_cons_cons, List.all_cons, Bool.and_eq_true, ih, ← hsame value]
      constructor
      · rintro ⟨hfirst, hrest⟩ (_ | i)
        · simpa using hfirst
        · exact hrest i
      · intro hall
        exact ⟨by simpa using hall 0, fun i => hall (i + 1)⟩

end

/-! ## Compositions -/

theorem compositionAllows_iff (h : Agrees c site.key sat apply) {keywords : Composition}
    (hread : CompositionReading c site schema keywords) :
    compositionAllows apply schema value = true ↔ keywords.Holds sat value := by
  have hall := h.items hread.allOf
  have hany := h.items hread.anyOf
  have hone := h.items hread.oneOf
  have hthen : asks schema "then" (fun inner => apply inner value) = true ↔
      ∀ id ∈ keywords.consequent, sat id value := asks_apply (h.child hread.consequent)
  have helse : asks schema "else" (fun inner => apply inner value) = true ↔
      ∀ id ∈ keywords.alternative, sat id value := asks_apply (h.child hread.alternative)
  have hnot : asks schema "not" (fun inner => !apply inner value) = true ↔
      ∀ id ∈ keywords.negated, ¬ sat id value :=
    asks_of_rel (h.child hread.negated) fun id inner hsame => by simp [hsame value]
  have hif : asks schema "if" (fun condition =>
        if apply condition value then asks schema "then" fun inner => apply inner value
        else asks schema "else" fun inner => apply inner value) = true ↔
      ∀ id ∈ keywords.condition,
        (sat id value → ∀ branch ∈ keywords.consequent, sat branch value) ∧
        (¬ sat id value → ∀ branch ∈ keywords.alternative, sat branch value) := by
    refine asks_of_rel (h.child hread.condition) fun id inner hsame => ?_
    rw [hsame value, ← hthen, ← helse]
    cases apply inner value <;> simp
  simp only [compositionAllows, Bool.and_eq_true, Bool.or_eq_true, beq_iff_eq, all_apply hall,
    any_apply hany, isEmpty_iff hany, isEmpty_iff hone, countP_apply hone, hnot, hif]
  constructor
  · rintro ⟨⟨⟨⟨hall, hany⟩, hone⟩, hnot⟩, hif⟩
    exact ⟨hall, hany.resolve_left, hone.resolve_left, hnot, fun id hid => (hif id hid).1,
      fun id hid => (hif id hid).2⟩
  · rintro ⟨hall, hany, hone, hnot, hthen, helse⟩
    exact ⟨⟨⟨⟨hall, or_iff_not_imp_left.mpr hany⟩, or_iff_not_imp_left.mpr hone⟩, hnot⟩,
      fun id hid => ⟨hthen id hid, helse id hid⟩⟩

/-! ## Arrays -/

theorem itemSchemas_older {declaration : DraftDeclaration} {items : List Json}
    (h : schema.get? "items" = some (.arr items)) :
    itemSchemas declaration schema = (items, schema.get? "additionalItems") := by
  rw [itemSchemas, h]

theorem itemSchemas_latest {declaration : DraftDeclaration}
    (h : ∀ items, schema.get? "items" = some (.arr items) → False) :
    itemSchemas declaration schema = (if allowsLatestItems declaration then
      schema.itemsAt "prefixItems" else [], schema.get? "items") := by
  unfold itemSchemas
  split
  case h_1 items hitems => exact absurd hitems (h items)
  case h_2 => rfl

theorem itemSchemas_nodes (h : Agrees c site.key sat apply) {children : ItemSchemas}
    (hread : ItemSchemaNodes c site schema children) :
    List.Forall₂ (Same sat apply) children.first (itemSchemas site.declaration schema).1 ∧
      Option.Rel (Same sat apply) children.rest (itemSchemas site.declaration schema).2 := by
  unfold ItemSchemaNodes at hread
  split at hread
  case h_1 items hitems =>
    rw [itemSchemas_older hitems]
    exact ⟨h.items hread.first, h.child hread.rest⟩
  case h_2 hother =>
    rw [itemSchemas_latest hother]
    exact ⟨h.items hread.first, h.child hread.rest⟩

theorem itemsAllow_iff (h : Agrees c site.key sat apply) {children : ItemSchemas}
    (hread : ItemSchemaNodes c site schema children) {values : List Json} :
    itemsAllow apply site.declaration schema values = true ↔
      (∀ i : Nat, ∀ id ∈ children.first[i]?, ∀ value ∈ values[i]?, sat id value) ∧
        ∀ id ∈ children.rest, ∀ value ∈ values.drop children.first.length, sat id value := by
  obtain ⟨hfirst, hrest⟩ := itemSchemas_nodes h hread
  simp only [itemsAllow, Bool.and_eq_true, zip_apply hfirst, ← hfirst.length_eq]
  refine and_congr_right fun _ => ?_
  revert hrest
  generalize (itemSchemas site.declaration schema).2 = rest
  generalize children.rest = child
  rintro (hsame | _)
  · simp [List.all_eq_true, hsame _]
  · simp

open Classical in
theorem countP_same {id : NodeId} {inner : Json} (h : Same sat apply id inner)
    (values : List Json) : values.countP (apply inner) = countHolding sat id values :=
  List.countP_congr fun value _ => by simp [h value]

theorem leastAllows_iff {least : Option Nat} {check : Nat → Bool}
    (h : schema.count? keyword = .ok least) :
    (if schema.has keyword then asksCount schema keyword check else check 1) = true ↔
      check (least.getD 1) = true := by
  rw [has_of_count h]
  cases least with
  | none => simp
  | some n => simp [asksCount_iff h]

theorem containsAllows_iff {child : Option NodeId} {least most : Option Nat} {values : List Json}
    (h : Option.Rel (Same sat apply) child (schema.get? "contains"))
    (hleast : schema.count? "minContains" = .ok least)
    (hmost : schema.count? "maxContains" = .ok most) :
    containsAllows apply schema values = true ↔
      ∀ id ∈ child, least.getD 1 ≤ countHolding sat id values ∧
        ∀ limit ∈ most, countHolding sat id values ≤ limit := by
  refine asks_of_rel h fun id inner hsame => ?_
  simp only [countP_same hsame, Bool.and_eq_true, asksCount_iff hmost, decide_eq_true_eq]
  refine and_congr_left fun _ => ?_
  exact (leastAllows_iff hleast).trans decide_eq_true_iff

theorem arrayAllows_iff (h : Agrees c site.key sat apply) {keywords : ArrayKeywords}
    (hread : ArrayReading c site schema keywords) {values : List Json} :
    arrayAllows apply site.declaration schema values = true ↔ keywords.Holds sat values := by
  have hcontains : containsAllows apply schema values = true ↔ _ :=
    containsAllows_iff (h.child hread.contains) hread.minContains hread.maxContains
  simp only [arrayAllows, Bool.and_eq_true, Bool.or_eq_true, Bool.not_eq_true',
    asksCount_iff hread.minItems, asksCount_iff hread.maxItems, isTrue_eq hread.uniqueItems,
    itemsAllow_iff h hread.items, hcontains, decide_eq_true_eq]
  constructor
  · rintro ⟨⟨⟨⟨hmin, hmax⟩, hunique⟩, hfirst, hrest⟩, hcontains⟩
    exact ⟨hmin, hmax, fun htrue => hunique.resolve_left (by simp [htrue]), hfirst, hrest,
      fun id hid => (hcontains id hid).1, fun id hid => (hcontains id hid).2⟩
  · rintro ⟨hmin, hmax, hunique, hfirst, hrest, hleast, hmost⟩
    refine ⟨⟨⟨⟨hmin, hmax⟩, ?_⟩, hfirst, hrest⟩, fun id hid => ⟨hleast id hid, hmost id hid⟩⟩
    cases hbool : keywords.uniqueItems
    · exact .inl rfl
    · exact .inr (hunique hbool)

end JsonSchema.Interpreter
