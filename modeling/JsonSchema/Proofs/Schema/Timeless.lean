import JsonSchema.Proofs.Json.Members
import JsonSchema.Schema.Keyword

/-!
# What a draft decides

Two members of a schema object are read by the rules of its draft: items and exclusive bounds. A
schema object in which neither is written the old or the new way means the same in every draft.
-/

namespace JsonSchema

namespace Members

variable {schema schema' : Members Json} {keyword : String}

def undeclared (schema : Members Json) : Members Json :=
  schema.filter fun member => member.1 != "$schema"

/-- Nothing in the schema object is allowed in some drafts only. -/
structure Timeless (schema : Members Json) : Prop where
  items : ∀ items, schema.get? "items" ≠ some (.arr items)
  prefixItems : schema.get? "prefixItems" = none
  exclusiveMinimum : ∀ b, schema.get? "exclusiveMinimum" ≠ some (.bool b)
  exclusiveMaximum : ∀ b, schema.get? "exclusiveMaximum" ≠ some (.bool b)

/-! ## Another declaration -/

theorem get?_undeclared (schema : Members Json) (hne : keyword ≠ "$schema") :
    schema.undeclared.get? keyword = schema.get? keyword := by
  induction schema with
  | nil => rfl
  | cons first rest ih =>
    rw [undeclared, List.filter_cons] at *
    split
    case isTrue => rw [get?_cons, get?_cons, ih]
    case isFalse hfirst =>
      have hname : keyword ≠ first.1 := by
        rintro rfl
        exact hfirst (bne_iff_ne.mpr hne)
      rw [get?_cons, if_neg hname, ih]

theorem get?_of_undeclared (h : schema'.undeclared = schema.undeclared)
    (hne : keyword ≠ "$schema") : schema'.get? keyword = schema.get? keyword := by
  rw [← get?_undeclared schema' hne, h, get?_undeclared schema hne]

theorem unknown_undeclared (schema : Members Json) :
    schema.undeclared.names.filter isUnknownKeyword = schema.names.filter isUnknownKeyword := by
  have hkept (member : String × Json) (hunknown : isUnknownKeyword member.1 = true) :
      (member.1 != "$schema") = true := by
    refine bne_iff_ne.mpr fun hname => ?_
    rw [hname] at hunknown
    exact absurd hunknown (by decide)
  rw [undeclared, names, names, List.filter_map, List.filter_map, List.filter_filter]
  refine congrArg _ (List.filter_congr fun member _ => ?_)
  rw [Function.comp_apply, Bool.and_eq_left_iff_imp]
  exact hkept member

theorem annotations_undeclared (schema : Members Json) :
    (annotationsOf schema).undeclared = annotationsOf schema.undeclared :=
  List.filter_comm ..

end Members

/-! ## Readings -/

section

variable {schema schema' : Members Json} {declaration declaration' : DraftDeclaration}

theorem readBound_timeless {keyword : String} (h : ∀ b, schema.get? keyword ≠ some (.bool b))
    (inclusive : Option Number) :
    readBound declaration schema keyword inclusive =
      (schema.number? keyword).map fun exclusive => ⟨inclusive, exclusive⟩ := by
  unfold readBound
  split
  case h_1 b hget => exact absurd hget (h b)
  case h_2 => rfl

theorem readNumberKeywords_timeless (h : schema.Timeless)
    (declaration declaration' : DraftDeclaration) :
    readNumberKeywords declaration' schema = readNumberKeywords declaration schema := by
  unfold readNumberKeywords
  simp only [readBound_timeless h.exclusiveMinimum, readBound_timeless h.exclusiveMaximum]

variable (h : schema'.undeclared = schema.undeclared)

include h

theorem number?_of_undeclared {keyword : String} (hne : keyword ≠ "$schema") :
    schema'.number? keyword = schema.number? keyword := by
  rw [Members.number?, Members.number?, Members.get?_of_undeclared h hne]

theorem count?_of_undeclared {keyword : String} (hne : keyword ≠ "$schema") :
    schema'.count? keyword = schema.count? keyword := by
  rw [Members.count?, Members.count?, Members.get?_of_undeclared h hne]

theorem object_of_undeclared {keyword : String} (hne : keyword ≠ "$schema") :
    schema'.object keyword = schema.object keyword := by
  rw [Members.object, Members.object, Members.get?_of_undeclared h hne]

theorem readValueKeywords_of_undeclared : readValueKeywords schema' = readValueKeywords schema := by
  unfold readValueKeywords
  simp (disch := decide) only [Members.get?_of_undeclared h]

theorem readNumberKeywords_of_undeclared (declaration : DraftDeclaration) :
    readNumberKeywords declaration schema' = readNumberKeywords declaration schema := by
  unfold readNumberKeywords readBound
  simp (disch := decide) only [Members.get?_of_undeclared h, number?_of_undeclared h]

theorem readStringKeywords_of_undeclared (location : String) :
    readStringKeywords location schema' = readStringKeywords location schema := by
  unfold readStringKeywords
  simp (disch := decide) only [Members.get?_of_undeclared h, count?_of_undeclared h]

theorem readRef_of_undeclared : readRef schema' = readRef schema := by
  unfold readRef
  simp (disch := decide) only [Members.get?_of_undeclared h]

theorem readAnchors_of_undeclared : readAnchors schema' = readAnchors schema := by
  unfold readAnchors readAnchor identifierAnchor?
  simp (disch := decide) only [Members.get?_of_undeclared h]

end

end JsonSchema
