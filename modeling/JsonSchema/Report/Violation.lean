import JsonSchema.Pointer.Basic

/-!
# Violations

A violation says which keyword of a schema failed at which place of an instance.
-/

namespace JsonSchema

structure Violation where
  path : Path
  keyword : String
  message : String
  /-- The place of the keyword in the schema. -/
  schemaPath : String
deriving DecidableEq, Repr, Inhabited

def Violation.pointer (v : Violation) : String := v.path.pointer

/-- The outcome of one validation: all violations, in the order of evaluation. -/
abbrev Violations := List Violation

def Violations.valid (violations : Violations) : Bool := violations.isEmpty

/-! ## Order -/

/-- Indices come before names; indices by size, names by code points. -/
def Segment.order : Segment → Segment → Ordering
  | .index i, .index j => compare i j
  | .index _, .name _ => .lt
  | .name _, .index _ => .gt
  | .name a, .name b => compare a b

/-- Segment by segment; a path comes before the paths that continue it. -/
def Path.order : Path → Path → Ordering
  | [], [] => .eq
  | [], _ :: _ => .lt
  | _ :: _, [] => .gt
  | a :: as, b :: bs => (a.order b).then (order as bs)

/-- By path, then by keyword. -/
def Violation.order (v w : Violation) : Ordering :=
  (v.path.order w.path).then (compare v.keyword w.keyword)

/-- The violations in the order of reports; those of one path and keyword stay as they were. -/
def Violations.sorted (violations : Violations) : Violations :=
  violations.mergeSort fun v w => (v.order w).isLE

end JsonSchema
