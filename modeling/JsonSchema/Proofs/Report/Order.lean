import JsonSchema.Report.Basic
import Mathlib.Data.List.Pairwise
import Mathlib.Data.List.Perm.Basic
import Mathlib.Data.String.Basic

/-!
# The order of reports

A report sorts its violations anew for every rendering. The order is a total preorder and the sort
is stable, so that every rendering shows one and the same list, and the place of an entry is that
of the violation in the entry.
-/

namespace JsonSchema

/-! ## Segments -/

/-- Indices come before names, indices by size and names by code points. -/
inductive Segment.Before : Segment → Segment → Prop
  | index {i j : Int} (h : i < j) : Before (.index i) (.index j)
  | kind (i : Int) (name : String) : Before (.index i) (.name name)
  | name {a b : String} (h : a < b) : Before (.name a) (.name b)

namespace Segment

theorem order_eq_lt {s t : Segment} : s.order t = .lt ↔ s.Before t := by
  constructor
  · intro h
    cases s with
    | index i =>
      cases t with
      | index j => exact .index (compare_lt_iff_lt.1 h)
      | name name => exact .kind i name
    | name a =>
      cases t with
      | index j => cases h
      | name b => exact .name (compare_lt_iff_lt.1 h)
  · rintro (h | _ | h)
    · exact compare_lt_iff_lt.2 h
    · rfl
    · exact compare_lt_iff_lt.2 h

theorem order_eq_eq {s t : Segment} : s.order t = .eq ↔ s = t := by
  cases s <;> cases t <;> simp [order]

theorem order_swap (s t : Segment) : s.order t = (t.order s).swap := by
  cases s <;> cases t <;> first | rfl | exact Std.OrientedOrd.eq_swap

theorem order_trans {s t u : Segment} (hst : (s.order t).isLE) (htu : (t.order u).isLE) :
    (s.order u).isLE := by
  cases s with
  | index i =>
    cases u with
    | name c => rfl
    | index k =>
      cases t with
      | index j => exact Std.TransOrd.isLE_trans (α := Int) hst htu
      | name b => cases htu
  | name a =>
    cases t with
    | index j => cases hst
    | name b =>
      cases u with
      | index k => cases htu
      | name c => exact Std.TransOrd.isLE_trans (α := String) hst htu

instance : Std.TransCmp order where
  eq_swap := order_swap _ _
  isLE_trans := order_trans

instance : Std.LawfulEqCmp order where
  compare_self := order_eq_eq.2 rfl
  eq_of_compare := order_eq_eq.1

end Segment

/-! ## Paths -/

namespace Path

theorem order_eq_compareLex (p q : Path) : p.order q = List.compareLex Segment.order p q := by
  induction p generalizing q with
  | nil => cases q <;> rfl
  | cons s p ih =>
    cases q with
    | nil => rfl
    | cons t q => rw [order, List.compareLex_cons_cons, ih]

instance : Std.TransCmp order :=
  (funext₂ order_eq_compareLex : order = _) ▸ inferInstance

instance : Std.LawfulEqCmp order :=
  (funext₂ order_eq_compareLex : order = _) ▸ inferInstance

theorem order_self (p : Path) : p.order p = .eq := Std.ReflCmp.compare_self

theorem order_eq_lt {p q : Path} : p.order q = .lt ↔ List.Lex Segment.Before p q := by
  induction p generalizing q with
  | nil =>
    cases q with
    | nil => exact ⟨nofun, nofun⟩
    | cons t q => exact ⟨fun _ => .nil, fun _ => rfl⟩
  | cons s p ih =>
    cases q with
    | nil => exact ⟨nofun, nofun⟩
    | cons t q =>
      rw [order, Ordering.then_eq_lt, Segment.order_eq_lt, Segment.order_eq_eq, ih]
      constructor
      · rintro (h | ⟨rfl, h⟩)
        · exact .rel h
        · exact .cons h
      · rintro (_ | h | h)
        · exact .inl h
        · exact .inr ⟨rfl, h⟩

end Path

/-! ## Violations -/

namespace Violation

/-- The order of reports, in words: by path, then by keyword. -/
def Precedes (v w : Violation) : Prop :=
  List.Lex Segment.Before v.path w.path ∨ v.path = w.path ∧ v.keyword ≤ w.keyword

theorem isLE_order {v w : Violation} : (v.order w).isLE ↔ v.Precedes w := by
  rw [order, Precedes, ← Path.order_eq_lt]
  cases hpath : v.path.order w.path with
  | lt => simp
  | eq =>
    simp only [Ordering.then, Std.LawfulEqCmp.eq_of_compare hpath, true_and, reduceCtorEq, false_or]
    exact Std.LawfulBCmp.isLE_iff_le
  | gt =>
    have hne : v.path ≠ w.path := fun h => by
      rw [h, Path.order_self] at hpath
      cases hpath
    simp [hne]

instance : Std.TransCmp fun v w : Violation => v.path.order w.path where
  eq_swap := Std.OrientedCmp.eq_swap
  isLE_trans := Std.TransCmp.isLE_trans

instance : Std.TransCmp order :=
  inferInstanceAs (Std.TransCmp (compareLex (fun v w => v.path.order w.path)
    (compareOn Violation.keyword)))

theorem order_swap (v w : Violation) : v.order w = (w.order v).swap := Std.OrientedCmp.eq_swap

theorem isLE_total (v w : Violation) : ((v.order w).isLE || (w.order v).isLE) = true := by
  rw [order_swap]
  cases w.order v <;> rfl

theorem isLE_trans (u v w : Violation) (huv : (u.order v).isLE) (hvw : (v.order w).isLE) :
    (u.order w).isLE := Std.TransCmp.isLE_trans huv hvw

end Violation

/-! ## The sort -/

namespace Violations

theorem sorted_perm (violations : Violations) : violations.sorted.Perm violations :=
  List.mergeSort_perm _ _

theorem sorted_pairwise (violations : Violations) :
    violations.sorted.Pairwise Violation.Precedes :=
  (List.pairwise_mergeSort Violation.isLE_trans Violation.isLE_total violations).imp
    Violation.isLE_order.1

def ofPlace (path : Path) (keyword : String) (violations : Violations) : Violations :=
  violations.filter fun v => v.path = path ∧ v.keyword = keyword

theorem ofPlace_sorted (path : Path) (keyword : String) (violations : Violations) :
    ofPlace path keyword violations.sorted = ofPlace path keyword violations := by
  have heq : (ofPlace path keyword violations).Pairwise fun v w => (v.order w).isLE := by
    refine List.Pairwise.imp_of_mem ?_ (List.pairwise_of_forall fun _ _ => trivial)
    intro v w hv hw _
    simp only [ofPlace, List.mem_filter, decide_eq_true_eq] at hv hw
    exact Violation.isLE_order.2 (.inr ⟨hv.2.1.trans hw.2.1.symm, (hv.2.2.trans hw.2.2.symm).le⟩)
  have hsub : (ofPlace path keyword violations).Sublist violations.sorted :=
    List.sublist_mergeSort Violation.isLE_trans Violation.isLE_total heq List.filter_sublist
  have hsub' : (ofPlace path keyword violations).Sublist
      (ofPlace path keyword violations.sorted) := by
    simpa [ofPlace] using hsub.filter fun v => v.path = path ∧ v.keyword = keyword
  exact (hsub'.eq_of_length ((violations.sorted_perm.filter _).length_eq.symm)).symm

end Violations

/-! ## Renderings -/

namespace Report

variable (report : Report) (v : Violation)

theorem placeMembers_eq : report.placeMembers v =
    match report.sourceMap.locate (some v.pointer) (some report.dataPath) with
    | ⟨_, _, some line, some column⟩ => [("line", .int line), ("column", .int column)]
    | ⟨_, _, some line, none⟩ => [("line", .int line), ("column", .null)]
    | ⟨_, _, none, _⟩ => [] := by
  rw [placeMembers, locate]
  rcases report.sourceMap.locate (some v.pointer) (some report.dataPath) with
    ⟨file, pointer, _ | line, _ | column⟩ <;> rfl

theorem violationCommand_eq : report.violationCommand v =
    "::error file=" ++ report.dataPath.text ++ ",line=" ++
      intText (match (report.sourceMap.locate (some v.pointer) (some report.dataPath)).line with
        | none | some 0 => 1
        | some line => line) ++ "::" ++ v.line := by
  unfold violationCommand locate
  cases (report.sourceMap.locate (some v.pointer) (some report.dataPath)).line with
  | none => rfl
  | some line => by_cases h : line = 0 <;> simp [h]

/--
All renderings show one list. It is sorted, and what the order does not tell apart stands in the
order of evaluation. The place of an entry is the one that the source map has for the violation in
that entry.
-/
theorem renderings_same_order : ∃ errors : Violations,
    errors.Perm report.violations ∧
    errors.Pairwise Violation.Precedes ∧
    (∀ path keyword, errors.ofPlace path keyword = report.violations.ofPlace path keyword) ∧
    report.violations.lines = errors.map Violation.line ∧
    report.violations.json =
      .obj [("valid", .bool report.violations.isEmpty), ("errors", .arr (errors.map (·.json)))] ∧
    report.json = .obj
      [("data", .str report.dataPath.text), ("schema", .str report.schemaPath.text),
        ("valid", .bool report.violations.isEmpty),
        ("errors", .arr (errors.map fun v => .obj (v.members ++
          match report.sourceMap.locate (some v.pointer) (some report.dataPath) with
          | ⟨_, _, some line, some column⟩ => [("line", .int line), ("column", .int column)]
          | ⟨_, _, some line, none⟩ => [("line", .int line), ("column", .null)]
          | ⟨_, _, none, _⟩ => []))),
        ("warnings", .arr (report.remarks.map (·.json)))] ∧
    report.commands = report.remarks.map report.remarkCommand ++ errors.map fun v =>
      "::error file=" ++ report.dataPath.text ++ ",line=" ++
        intText (match (report.sourceMap.locate (some v.pointer) (some report.dataPath)).line with
          | none | some 0 => 1
          | some line => line) ++ "::" ++ v.line := by
  refine ⟨report.violations.sorted, report.violations.sorted_perm,
    report.violations.sorted_pairwise, fun path keyword => Violations.ofPlace_sorted _ _ _,
    rfl, rfl, ?_, ?_⟩
  · simp only [← placeMembers_eq]
    rfl
  · simp only [← violationCommand_eq]
    rfl

end Report

end JsonSchema
