import JsonSchema.Json.Literal
import JsonSchema.Number.Numeral
import JsonSchema.Pointer.Basic
import JsonSchema.Text.Basic
import JsonSchema.Text.Utf8

/-!
# Why a YAML document cannot be read

A text may break the rules of YAML, a value may have no equivalent in JSON, and the text of a
scalar may not fit the tag that it carries.
-/

namespace JsonSchema

/-! ## Expectations -/

inductive ExpectedText where
  | name | digitOrPoint | digitOrSpace | digit | space | commentOrBreak | tagEnd | tagMark | uri
  | uriEscape
  | escape (length : Nat)
  | blockHeader
deriving DecidableEq, Repr

def ExpectedText.text : ExpectedText → String
  | .name => "alphabetic or numeric character"
  | .digitOrPoint => "a digit or '.'"
  | .digitOrSpace => "a digit or ' '"
  | .digit => "a digit"
  | .space => "' '"
  | .commentOrBreak => "a comment or a line break"
  | .tagEnd => "'>'"
  | .tagMark => "'!'"
  | .uri => "URI"
  | .uriEscape => "URI escape sequence of 2 hexadecimal numbers"
  | .escape length => "escape sequence of " ++ natText length ++ " hexadecimal numbers"
  | .blockHeader => "chomping or indentation indicators"

inductive ExpectedPart where
  | documentStart | nodeContent | blockEnd | sequenceRest | mappingRest
deriving DecidableEq, Repr

def ExpectedPart.text : ExpectedPart → String
  | .documentStart => "'<document start>', but found "
  | .nodeContent => "the node content, but found "
  | .blockEnd => "<block end>, but found "
  | .sequenceRest => "',' or ']', but got "
  | .mappingRest => "',' or '\x7d', but got "

inductive YamlNodeKind where
  | scalar | sequence | mapping
deriving DecidableEq, Repr

def YamlNodeKind.name : YamlNodeKind → String
  | .scalar => "scalar"
  | .sequence => "sequence"
  | .mapping => "mapping"

/-- What kind of node a tag or a merge asks for. -/
inductive ExpectedNode where
  | scalar | sequence | mapping | pairs | pair | merged | mergedOrList
deriving DecidableEq, Repr

def ExpectedNode.text : ExpectedNode → String
  | .scalar => "a scalar node"
  | .sequence => "a sequence node"
  | .mapping => "a mapping node"
  | .pairs => "a sequence"
  | .pair => "a mapping of length 1"
  | .merged => "a mapping for merging"
  | .mergedOrList => "a mapping or list of mappings for merging"

/-! ## Malformed texts -/

inductive Base64Fault where
  | length (count : Nat)
  | padding
deriving DecidableEq, Repr

def Base64Fault.message : Base64Fault → String
  | .length count =>
    "Invalid base64-encoded string: number of data characters (" ++ natText count ++
      ") cannot be 1 more than a multiple of 4"
  | .padding => "Incorrect padding"

structure NonAsciiRun where
  char : Char
  position : Nat
  length : Nat
deriving DecidableEq, Repr

def positionText (position length : Nat) : String :=
  natText position ++ (if length ≤ 1 then "" else "-" ++ natText (position + length - 1))

def NonAsciiRun.message (run : NonAsciiRun) : String :=
  let what :=
    if run.length ≤ 1 then "character '" ++ codeEscape run.char.toNat ++ "'" else "characters"
  "'ascii' codec can't encode " ++ what ++ " in position " ++
    positionText run.position run.length ++ ": ordinal not in range(128)"

def DecodingError.message (error : DecodingError) : String :=
  let what := if error.length ≤ 1 then "byte 0x" ++ hexDigits 2 error.byte.toNat else "bytes"
  "'utf-8' codec can't decode " ++ what ++ " in position " ++
    positionText error.position error.length ++ ": " ++ error.fault.reason

inductive YamlProblem where
  | expectedText (what : ExpectedText) (found : Char)
  | expectedPart (what : ExpectedPart) (found : String)
  | expectedNode (what : ExpectedNode) (found : YamlNodeKind)
  | expectedOnePair (count : Nat)
  | noTokenStart (found : Char)
  | missingColon
  | sequenceEntryNotAllowed
  | mappingKeyNotAllowed
  | mappingValueNotAllowed
  | zeroIndentation
  | endInQuotes
  | separatorInQuotes
  | unknownEscape (found : Char)
  | badUriBytes (error : DecodingError)
  | duplicateVersion
  | incompatibleVersion
  | duplicateHandle (handle : String)
  | undefinedHandle (handle : String)
  | undefinedAlias (anchor : String)
  | duplicateAnchor
  | secondDocument
  | unknownTag (tag : String)
  | duplicateKey (name : String)
  | notAscii (run : NonAsciiRun)
  | badBase64 (fault : Base64Fault)
  | unacceptable (code : Nat) (reason source : String) (position : Nat)
  | tooDeep
deriving DecidableEq, Repr

/-- How many digits a message shows of a character's code at least. -/
def codeText (minimum code : Nat) : String :=
  let digits := Nat.toDigits 16 code
  String.ofList (List.replicate (minimum - digits.length) '0' ++ digits)

def YamlProblem.message : YamlProblem → String
  | .expectedText what found =>
    "expected " ++ what.text ++ ", but found " ++ stringLiteral found.toString
  | .expectedPart what found => "expected " ++ what.text ++ stringLiteral found
  | .expectedNode what found => "expected " ++ what.text ++ ", but found " ++ found.name
  | .expectedOnePair count =>
    "expected a single mapping item, but found " ++ natText count ++ " items"
  | .noTokenStart found =>
    "found character " ++ stringLiteral found.toString ++ " that cannot start any token"
  | .missingColon => "could not find expected ':'"
  | .sequenceEntryNotAllowed => "sequence entries are not allowed here"
  | .mappingKeyNotAllowed => "mapping keys are not allowed here"
  | .mappingValueNotAllowed => "mapping values are not allowed here"
  | .zeroIndentation => "expected indentation indicator in the range 1-9, but found 0"
  | .endInQuotes => "found unexpected end of stream"
  | .separatorInQuotes => "found unexpected document separator"
  | .unknownEscape found => "found unknown escape character " ++ stringLiteral found.toString
  | .badUriBytes error => error.message
  | .duplicateVersion => "found duplicate YAML directive"
  | .incompatibleVersion => "found incompatible YAML document (version 1.* is required)"
  | .duplicateHandle handle => "duplicate tag handle " ++ stringLiteral handle
  | .undefinedHandle handle => "found undefined tag handle " ++ stringLiteral handle
  | .undefinedAlias anchor => "found undefined alias " ++ stringLiteral anchor
  | .duplicateAnchor => "second occurrence"
  | .secondDocument => "but found another document"
  | .unknownTag tag => "could not determine a constructor for the tag " ++ stringLiteral tag
  | .duplicateKey name => "found duplicate key '" ++ name ++ "'"
  | .notAscii run => "failed to convert base64 data into ascii: " ++ run.message
  | .badBase64 fault => "failed to decode base64 data: " ++ fault.message
  | .unacceptable code reason source position =>
    "unacceptable character #x" ++ codeText 4 code ++ ": " ++ reason ++ "\n  in \"" ++ source ++
      "\", position " ++ natText position
  | .tooDeep => "document is nested too deeply"

/-! ## Scalars that do not fit their tag -/

inductive CalendarFault where
  | year (n : Nat)
  | month | day | hour | minute | second
  | offset (days : Int) (seconds : Nat)
deriving DecidableEq, Repr

/-- An offset in days and in seconds of a day. -/
def offsetText (days : Int) (seconds : Nat) : String :=
  "datetime.timedelta(" ++ ", ".intercalate
    ((if days = 0 then [] else ["days=" ++ intText days]) ++
      (if seconds = 0 then [] else ["seconds=" ++ natText seconds])) ++ ")"

def CalendarFault.message : CalendarFault → String
  | .year n => "year " ++ natText n ++ " is out of range"
  | .month => "month must be in 1..12"
  | .day => "day is out of range for month"
  | .hour => "hour must be in 0..23"
  | .minute => "minute must be in 0..59"
  | .second => "second must be in 0..59"
  | .offset days seconds =>
    "offset must be a timedelta strictly between -timedelta(hours=24) and timedelta(hours=24), " ++
      "not " ++ offsetText days seconds ++ "."

/-- Why the text of a scalar, or of a number in a directive, does not fit what it is to be. -/
inductive ScalarFault where
  | numeral (fault : NumeralFault)
  | emptyNumeral
  | notAFloat (text : String)
  | baseTooLarge
  | notABoolean
  | notATimestamp
  | timestampOfMapping
  | calendar (fault : CalendarFault)
  | noSuchCharacter
  | escapeTooLarge
  | keyTooLong
deriving DecidableEq, Repr

def ScalarFault.message? : ScalarFault → Option String
  | .numeral fault => some fault.message
  | .notAFloat text => some ("could not convert string to float: " ++ stringLiteral text)
  | .calendar fault => some fault.message
  | .noSuchCharacter => some "chr() arg not in range(0x110000)"
  | .keyTooLong => some noTextMessage
  | .emptyNumeral | .baseTooLarge | .notABoolean | .notATimestamp | .timestampOfMapping
  | .escapeTooLarge => none

/-! ## All faults -/

/-- A YAML value that JSON does not have. -/
inductive NotJson where
  | key (kind : String)
  | nonFinite
  | recursive
  | value (kind : String)
deriving DecidableEq, Repr

def NotJson.message (pointer : String) : NotJson → String :=
  let place := "'" ++ (if pointer == "" then "/" else pointer) ++ "'"
  fun
  | .key kind => "Unsupported mapping key of type " ++ kind ++ " at " ++ place
  | .nonFinite => "Non-finite number at " ++ place ++ " has no JSON equivalent"
  | .recursive => "Recursive alias at " ++ place ++ " has no JSON equivalent"
  | .value kind => "Value of type " ++ kind ++ " at " ++ place ++ " has no JSON equivalent"

inductive YamlFault where
  | malformed (problem : YamlProblem) (place : Option Place)
  | notJson (cause : NotJson) (pointer : String)
  | scalar (fault : ScalarFault)
deriving DecidableEq, Repr

namespace YamlFault

def here (place : Place) (problem : YamlProblem) : YamlFault := .malformed problem (some place)

def place? : YamlFault → Option Place
  | .malformed _ place => place
  | _ => none

/-- The message without the place. -/
def summary : YamlFault → String
  | .malformed problem _ => "Invalid YAML: " ++ problem.message
  | .notJson cause pointer => cause.message pointer
  | .scalar fault => fault.message?.getD ""

/-- Whether the document is at fault, and not the text of one of its scalars. -/
def isOfDocument : YamlFault → Bool
  | .scalar _ => false
  | _ => true

end YamlFault

end JsonSchema
