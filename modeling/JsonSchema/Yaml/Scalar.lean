import JsonSchema.Number.Extended
import JsonSchema.Text.Case
import JsonSchema.Text.Basic
import JsonSchema.Yaml.Base64
import JsonSchema.Yaml.Implicit
import JsonSchema.Yaml.Timestamp

/-!
# The values of scalars

The tag of a scalar says how to read its text.
-/

namespace JsonSchema.Yaml

/-- The value of a scalar. Bytes and moments have no equivalent in JSON, so they keep no content. -/
inductive ScalarValue where
  | null
  | bool (b : Bool)
  | int (n : Int)
  | float (x : Extended)
  | str (s : String)
  | bytes
  | date
  | dateTime
deriving DecidableEq, Repr, Inhabited

namespace ScalarValue

def kind : ScalarValue → String
  | .null => "NoneType"
  | .bool _ => "bool"
  | .int _ => "int"
  | .float _ => "float"
  | .str _ => "str"
  | .bytes => "bytes"
  | .date => "date"
  | .dateTime => "datetime"

/-! ## Reading -/

def readBool (text : String) : Except ScalarFault Bool :=
  match lowerAscii text with
  | "yes" | "true" | "on" => .ok true
  | "no" | "false" | "off" => .ok false
  | _ => .error .notABoolean

/-- A number's sign, which may be missing, and its text without underscores. -/
def signed (text : String) : Except ScalarFault (Bool × List Char) :=
  match text.toList.filter (· != '_') with
  | [] => .error .emptyNumeral
  | '-' :: rest => .ok (true, rest)
  | '+' :: rest => .ok (false, rest)
  | cs => .ok (false, cs)

def integerIn (base : Nat) (cs : List Char) : Except ScalarFault Int :=
  (readInteger base (String.ofList cs)).mapError .numeral

/-- Each colon between the parts of a number multiplies by sixty. -/
def colonBase : Nat := 60

/-- An integer in the base that its start gives. -/
def unsignedInt (cs : List Char) : Except ScalarFault Int :=
  match cs with
  | [] => .error .emptyNumeral
  | ['0'] => .ok 0
  | '0' :: 'b' :: rest => integerIn 2 rest
  | '0' :: 'x' :: rest => integerIn 16 rest
  | '0' :: _ => integerIn 8 cs
  | _ =>
    if cs.contains ':' then do
      let parts ← (splitChars ':' cs).mapM (integerIn 10)
      return parts.foldl (fun n part => colonBase * n + part) 0
    else integerIn 10 cs

def readInt (text : String) : Except ScalarFault Int := do
  let (negative, cs) ← signed text
  let n ← unsignedInt cs
  return if negative then -n else n

def extended (cs : List Char) : Except ScalarFault Extended :=
  match Extended.ofText? (String.ofList cs) with
  | some x => .ok x
  | none => .error (.notAFloat (String.ofList cs))

/-- The sum of parts, last one first, each times the power of sixty for its place. -/
def sixtieths : Nat → Extended → List Extended → Except ScalarFault Extended
  | _, sum, [] => .ok sum
  | power, sum, part :: rest =>
    (Binary64.ofInt? (Nat.pow colonBase power)).elim (.error .baseTooLarge) fun factor =>
      sixtieths (power + 1) (sum.add (part.scale factor)) rest

def unsignedFloat (cs : List Char) : Except ScalarFault Extended :=
  if cs == ".inf".toList then .ok (.infinite false)
  else if cs == ".nan".toList then .ok .notANumber
  else if cs.contains ':' then do
    let parts ← (splitChars ':' cs).mapM extended
    sixtieths 0 (.finite .zero) parts.reverse
  else extended cs

def readFloat (text : String) : Except ScalarFault Extended := do
  let (negative, cs) ← signed (String.ofList (text.toList.map lowerChar))
  let x ← unsignedFloat cs
  return if negative then x.neg else x

def readTimestamp (text : String) : Except ScalarFault ScalarValue :=
  match Timestamp.ofText? text with
  | none => .error .notATimestamp
  | some t => do
    t.check.mapError .calendar
    return if t.time.isSome then .dateTime else .date

end ScalarValue

/-! ## Tags -/

/-- A tag whose values have text. -/
inductive ScalarTag where
  | null | bool | int | float | str | binary | timestamp
deriving DecidableEq, Repr

/-- A tag whose values have nodes. -/
inductive CollectionTag where
  | sequence | mapping | pairs | set
deriving DecidableEq, Repr

inductive KnownTag where
  | scalar (tag : ScalarTag)
  | collection (tag : CollectionTag)
deriving DecidableEq, Repr

def KnownTag.ofText? (tag : String) : Option KnownTag :=
  [(Tag.null, scalar .null), (Tag.bool, scalar .bool), (Tag.int, scalar .int),
    (Tag.float, scalar .float), (Tag.str, scalar .str), (Tag.binary, scalar .binary),
    (Tag.timestamp, scalar .timestamp), (Tag.seq, collection .sequence),
    (Tag.map, collection .mapping), (Tag.omap, collection .pairs),
    (Tag.pairs, collection .pairs), (Tag.set, collection .set)].lookup tag

/--
The value of a text under a tag. `inMapping` says that the text belongs to a mapping that stands for
a scalar, and `place` where the node starts.
-/
def ScalarTag.read (tag : ScalarTag) (inMapping : Bool) (place : Place) (text : String) :
    Except YamlFault ScalarValue :=
  match tag with
  | .null => .ok .null
  | .bool => ((ScalarValue.readBool text).map .bool).mapError .scalar
  | .int => ((ScalarValue.readInt text).map .int).mapError .scalar
  | .float => ((ScalarValue.readFloat text).map .float).mapError .scalar
  | .str => .ok (.str text)
  | .binary => ((checkBinary text).map fun _ => .bytes).mapError (.here place)
  | .timestamp =>
    if inMapping then .error (.scalar .timestampOfMapping)
    else (ScalarValue.readTimestamp text).mapError .scalar

def CollectionTag.kind : CollectionTag → String
  | .sequence | .pairs => "list"
  | .mapping => "dict"
  | .set => "set"

/-! ## Names -/

/-- The name that a scalar gives to a member of a JSON object. -/
def ScalarValue.name : ScalarValue → Except YamlFault String
  | .null => .ok "null"
  | .bool b => .ok (if b then "true" else "false")
  | .int n =>
    if maxIntegerDigits < decimalLength n.natAbs then .error (.scalar .keyTooLong)
    else .ok (intText n)
  | .float x => .ok x.text
  | .str s => .ok s
  | other => .error (.notJson (.key other.kind) "")

end JsonSchema.Yaml
