import JsonSchema.Number.Basic

/-!
# Documents

A document is a JSON value. The members of an object keep the order in which they were written,
and a well-formed object has each name once. A string is made of whole characters: half of a
surrogate pair, which an escape can spell, is read as the replacement character.
-/

namespace JsonSchema

inductive Json where
  | null
  | bool (value : Bool)
  | num (value : Number)
  | str (value : String)
  | arr (items : List Json)
  | obj (members : List (String × Json))
deriving Inhabited, Repr

/-! ## Members -/

/-- An object's members, or any other table from names in the order of writing. -/
abbrev Members (α : Type) := List (String × α)

namespace Members

def get? {α : Type} (members : Members α) (name : String) : Option α := members.lookup name

def has {α : Type} (members : Members α) (name : String) : Bool := (members.get? name).isSome

/-- Sets a member: a name that is already there keeps its place and takes the new value. -/
def put {α : Type} : Members α → String → α → Members α
  | [], name, value => [(name, value)]
  | (first, old) :: rest, name, value =>
    if first == name then (first, value) :: rest else (first, old) :: put rest name value

def names {α : Type} (members : Members α) : List String := members.map (·.1)

end Members

namespace Json

def int (n : Int) : Json := .num (.int n)

def float (x : Binary64) : Json := .num (.float x)

def member? (value : Json) (name : String) : Option Json :=
  match value with
  | .obj members => Members.get? members name
  | _ => none

/-! ## Types -/

inductive Kind where
  | null | boolean | integer | number | string | array | object
deriving DecidableEq, Repr, Inhabited

namespace Kind

def all : List Kind := [.null, .boolean, .integer, .number, .string, .array, .object]

def name : Kind → String
  | .null => "null"
  | .boolean => "boolean"
  | .integer => "integer"
  | .number => "number"
  | .string => "string"
  | .array => "array"
  | .object => "object"

def ofName? (name : String) : Option Kind := all.find? (·.name == name)

end Kind

/-- The type of a value: a number without a fraction is an integer, however it is written. -/
def kind : Json → Kind
  | .null => .null
  | .bool _ => .boolean
  | .num n => if n.isIntegral then .integer else .number
  | .str _ => .string
  | .arr _ => .array
  | .obj _ => .object

/-- Whether a value is of a type. Every integer is a number too. -/
def hasKind (value : Json) (kind : Kind) : Bool :=
  match kind, value with
  | .number, .num _ => true
  | _, _ => value.kind == kind

/-! ## Equality -/

mutual

/--
Equality of values. Numbers are equal when their values are, and the order of an object's
members does not matter.
-/
def same : Json → Json → Bool
  | .null, .null => true
  | .bool a, .bool b => a == b
  | .num a, .num b => a.same b
  | .str a, .str b => a == b
  | .arr a, .arr b => sameItems a b
  | .obj a, .obj b => a.length == b.length && sameMembers a b
  | _, _ => false

def sameItems : List Json → List Json → Bool
  | [], [] => true
  | a :: as, b :: bs => same a b && sameItems as bs
  | _, _ => false

/-- Whether every member on the left has an equal one on the right. -/
def sameMembers : List (String × Json) → List (String × Json) → Bool
  | [], _ => true
  | (name, a) :: rest, others =>
    (match Members.get? others name with
      | some b => same a b
      | none => false) && sameMembers rest others

end

end Json

end JsonSchema
