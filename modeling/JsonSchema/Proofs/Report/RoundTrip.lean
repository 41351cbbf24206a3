import JsonSchema.Document.Fault
import JsonSchema.Proofs.Json.RoundTrip
import JsonSchema.Proofs.Report.Order

/-!
# Reports that read back

The JSON report of a validation is a document that reads back from its text in every layout: with
names and indices on its paths kept apart, and with its entries and their members in their order.
-/

namespace JsonSchema

variable {depth : Nat}

/-! ## The document of a report -/

theorem Segment.regular_json (segment : Segment) : segment.json.Regular depth := by
  cases segment with
  | name text => exact .str text
  | index i => exact .int i

theorem Violation.regular_json (v : Violation) : v.json.Regular (depth + 2) := by
  have hpath : (Json.arr (v.path.map (·.json))).Regular (depth + 1) :=
    .arr (List.forall_mem_map.mpr fun segment _ => segment.regular_json)
  refine .obj (show ["path", "pointer", "keyword", "message", "schemaPath"].Nodup by decide) ?_
  simp only [Violation.members, List.forall_mem_cons]
  exact ⟨hpath, .str _, .str _, .str _, .str _, List.forall_mem_nil _⟩

theorem Violations.regular_json (violations : Violations) :
    violations.json.Regular (depth + 4) := by
  have herrors : (Json.arr (violations.sorted.map (·.json))).Regular (depth + 3) :=
    .arr (List.forall_mem_map.mpr fun v _ => v.regular_json)
  refine .obj (show ["valid", "errors"].Nodup by decide) ?_
  simp only [List.forall_mem_cons]
  exact ⟨.bool _, herrors, List.forall_mem_nil _⟩

/-! ## Integers in a report -/

theorem Violation.hasText_json (v : Violation) : v.json.hasText = true ↔
    ∀ i, Segment.index i ∈ v.path → decimalLength i.natAbs ≤ maxIntegerDigits := by
  have hpath : v.json.hasText = Json.itemsHaveText (v.path.map (·.json)) := by
    simp [Violation.json, Violation.members, Json.hasText, Json.membersHaveText]
  rw [hpath, Json.itemsHaveText_iff, List.forall_mem_map]
  constructor
  · intro h i hi
    exact of_decide_eq_true (h (.index i) hi)
  · intro h segment hsegment
    cases segment with
    | name text => rfl
    | index i => exact decide_eq_true (h i hsegment)

theorem Violations.hasText_json (violations : Violations) : violations.json.hasText = true ↔
    ∀ v ∈ violations, ∀ i, Segment.index i ∈ v.path →
      decimalLength i.natAbs ≤ maxIntegerDigits := by
  have herrors : violations.json.hasText = Json.itemsHaveText (violations.sorted.map (·.json)) := by
    simp [Violations.json, Json.hasText, Json.membersHaveText]
  have hmem : ∀ v, v ∈ violations.sorted ↔ v ∈ violations :=
    fun v => (sorted_perm violations).mem_iff
  simp only [herrors, Json.itemsHaveText_iff, List.forall_mem_map, Violation.hasText_json, hmem]

/--
A report reads back as the document that was written, in every layout. Only an index can stand in
the way, where it has more digits than the text of an integer may have; such a path has no pointer
either, so no report has it.
-/
theorem Violations.report_reads_back (violations : Violations) (indent : Option Nat) :
    Json.parse (violations.json.textIn { indent } 0) = .ok violations.json ↔
      ∀ v ∈ violations, ∀ i, Segment.index i ∈ v.path →
        decimalLength i.natAbs ≤ maxIntegerDigits := by
  have hparse : ∀ text value, Json.parse text = .ok value ↔ Json.read text = .ok value := by
    intro text value
    unfold Json.parse
    split <;> simp_all
  rw [hparse, Json.read_textIn_iff violations.regular_json, Violations.hasText_json]

end JsonSchema
