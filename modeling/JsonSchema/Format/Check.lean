import JsonSchema.Format.Address
import JsonSchema.Format.Date
import JsonSchema.Regex.Read
import JsonSchema.Text.CodeRanges
import JsonSchema.Uri.Basic

/-!
# String formats

A format is a set of strings with a name. Names that are not listed here have no meaning.
-/

namespace JsonSchema

inductive Format where
  | dateTime | date | time | email | ipv4 | ipv6 | uri | uuid | regex | jsonPointer
deriving DecidableEq, Repr

namespace Format

def all : List Format :=
  [.dateTime, .date, .time, .email, .ipv4, .ipv6, .uri, .uuid, .regex, .jsonPointer]

def name : Format → String
  | .dateTime => "date-time"
  | .date => "date"
  | .time => "time"
  | .email => "email"
  | .ipv4 => "ipv4"
  | .ipv6 => "ipv6"
  | .uri => "uri"
  | .uuid => "uuid"
  | .regex => "regex"
  | .jsonPointer => "json-pointer"

def ofName? (name : String) : Option Format := all.find? (·.name == name)

/-! ## Grammars -/

/-- A point with something before and after it. -/
def hasInnerPoint (cs : List Char) : Bool := (cs.drop 1).dropLast.contains '.'

/-- One `@` between a name and a domain with a point in it, and no blanks. -/
def isEmail (cs : List Char) : Bool :=
  !cs.any isBlank &&
    match cutChars? '@' cs with
    | some (name, domain) => !name.isEmpty && !domain.contains '@' && hasInnerPoint domain
    | none => false

/-- A URI with a scheme and without blanks. -/
def isUri (cs : List Char) : Bool :=
  !cs.any isBlank &&
    match Uri.split "" cs with
    | .ok parts => parts.scheme != ""
    | .error _ => false

def uuidGroups : List Nat := [8, 4, 4, 4, 12]

def isUuid (cs : List Char) : Bool :=
  let groups := splitChars '-' cs
  groups.map List.length == uuidGroups &&
    groups.all fun group => group.all fun c => (JsonReader.hexValue? c).isSome

/-- Whether every `~` is the start of an escape. -/
def areEscapes : List Char → Bool
  | [] => true
  | '~' :: c :: rest => (c == '0' || c == '1') && areEscapes rest
  | ['~'] => false
  | _ :: rest => areEscapes rest

def isPointer (cs : List Char) : Bool := (cs.isEmpty || cs.head? == some '/') && areEscapes cs

/--
Whether a string belongs to the format. An expression may be at fault in a way that is no matter
of its syntax; then there is no answer.
-/
def accepts (format : Format) (value : String) : Except Regex.Fault Bool :=
  let cs := value.toList
  match format with
  | .dateTime => .ok (Moment.isDateTime cs)
  | .date => .ok (Moment.isDate cs)
  | .time => .ok (Moment.isTime cs)
  | .email => .ok (isEmail cs)
  | .ipv4 => .ok (Address.isDotted cs)
  | .ipv6 => .ok (Address.isColon cs)
  | .uri => .ok (isUri cs)
  | .uuid => .ok (isUuid cs)
  | .jsonPointer => .ok (isPointer cs)
  | .regex =>
    match Pattern.read value with
    | .ok _ => .ok true
    | .error (.bad _ _) => .ok false
    | .error fault => .error fault

def check (name value : String) : Except Regex.Fault (Option Bool) :=
  match ofName? name with
  | some format => (format.accepts value).map some
  | none => .ok none

end Format

end JsonSchema
