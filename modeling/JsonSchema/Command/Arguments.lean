import JsonSchema.Json.Literal
import JsonSchema.Number.Numeral
import JsonSchema.Text.CodeRanges
import JsonSchema.Text.Basic

/-!
# Command-line arguments

A long option may be cut short where what is left names one option only, and its value may stand
behind an equals sign. Short options without values may stand behind one dash. Everything behind two
dashes belongs to the positional arguments.
-/

namespace JsonSchema

/-! ## Commands -/

inductive ValueKind where
  | any
  | integer
  | choice (words : List String)
deriving DecidableEq, Repr

inductive OptionKind where
  | flag
  | value (kind : ValueKind)
  | help
deriving DecidableEq, Repr

structure OptionSpec where
  names : List String
  kind : OptionKind
deriving DecidableEq, Repr

/-- A positional argument; one that repeats may also be missing. -/
structure PositionalSpec where
  name : String
  repeats : Bool
deriving DecidableEq, Repr

structure CommandSpec where
  program : String
  options : List OptionSpec
  positionals : List PositionalSpec

inductive ArgumentFault where
  | ambiguous (given : String) (matching : List String)
  | ignoredValue (option : OptionSpec) (value : String)
  | missingValue (option : OptionSpec)
  | notAnInteger (option : OptionSpec) (value : String)
  | notAChoice (option : OptionSpec) (value : String) (words : List String)
  | missing (names : List String)
  | unrecognized (arguments : List String)
  | helpAsked
deriving DecidableEq, Repr

def OptionSpec.label (option : OptionSpec) : String := "/".intercalate option.names

def OptionSpec.complaint (option : OptionSpec) (message : String) : String :=
  "argument " ++ option.label ++ ": " ++ message

def ArgumentFault.message : ArgumentFault → String
  | .ambiguous given matching =>
    "ambiguous option: " ++ given ++ " could match " ++ ", ".intercalate matching
  | .ignoredValue option value =>
    option.complaint ("ignored explicit argument " ++ stringLiteral value)
  | .missingValue option => option.complaint "expected one argument"
  | .notAnInteger option value =>
    option.complaint ("invalid int value: " ++ stringLiteral value)
  | .notAChoice option value words =>
    option.complaint ("invalid choice: " ++ stringLiteral value ++ " (choose from " ++
      ", ".intercalate (words.map stringLiteral) ++ ")")
  | .missing names => "the following arguments are required: " ++ ", ".intercalate names
  | .unrecognized arguments => "unrecognized arguments: " ++ " ".intercalate arguments
  | .helpAsked => ""

/-! ## Single arguments -/

/-- A value in the same argument as its option, and whether an equals sign stands in front of it. -/
structure AttachedValue where
  text : String
  behindEquals : Bool
deriving DecidableEq, Repr

structure GivenOption where
  option : OptionSpec
  name : String
  attached : Option AttachedValue
deriving DecidableEq, Repr

inductive ArgumentKind where
  | positional
  | separator
  | option (given : GivenOption)
  | unknownOption
deriving DecidableEq, Repr

def ArgumentKind.isOption : ArgumentKind → Bool
  | .option _ | .unknownOption => true
  | _ => false

namespace CommandSpec

def names (spec : CommandSpec) : List (String × OptionSpec) :=
  spec.options.flatMap fun option => option.names.map (·, option)

def named? (spec : CommandSpec) (name : String) : Option OptionSpec := spec.names.lookup name

def cutValue (argument : String) : String × Option AttachedValue :=
  match cutChars? '=' argument.toList with
  | some (name, value) => (String.ofList name, some ⟨String.ofList value, true⟩)
  | none => (argument, none)

def candidates (spec : CommandSpec) (argument : String) : List GivenOption :=
  match argument.toList with
  | '-' :: '-' :: _ =>
    let (name, attached) := cutValue argument
    (spec.names.filter fun entry => startsWithChars name.toList entry.1.toList).map
      fun (full, option) => ⟨option, full, attached⟩
  | a :: b :: rest =>
    let short := String.ofList [a, b]
    spec.names.filterMap fun (full, option) =>
      if full == short then some ⟨option, full, some ⟨String.ofList rest, false⟩⟩
      else if startsWithChars argument.toList full.toList then some ⟨option, full, none⟩
      else none
  | _ => []

def isNegativeNumber (argument : String) : Bool :=
  match argument.toList with
  | '-' :: rest =>
    match cutChars? '.' rest with
    | none => !rest.isEmpty && rest.all isDecimalDigit
    | some (whole, fraction) =>
      whole.all isDecimalDigit && !fraction.isEmpty && fraction.all isDecimalDigit
  | _ => false

/-- What an argument in front of all separators is. -/
def kindOf (spec : CommandSpec) (argument : String) : Except ArgumentFault ArgumentKind :=
  if argument.toList.head? != some '-' then .ok .positional
  else
    let (name, attached) := cutValue argument
    match spec.named? argument, spec.named? name with
    | some option, _ => .ok (.option ⟨option, argument, none⟩)
    | none, some option => .ok (.option ⟨option, name, attached⟩)
    | none, none =>
      if argument == "-" then .ok .positional
      else
        match spec.candidates argument with
        | [given] => .ok (.option given)
        | [] =>
          if isNegativeNumber argument || argument.toList.contains ' ' then .ok .positional
          else .ok .unknownOption
        | several => .error (.ambiguous argument (several.map (·.name)))

end CommandSpec

structure Argument where
  text : String
  kind : ArgumentKind
deriving DecidableEq, Repr

def separatorText : String := "--"

def CommandSpec.classify (spec : CommandSpec) : List String → Except ArgumentFault (List Argument)
  | [] => .ok []
  | text :: rest =>
    if text == separatorText then
      .ok (⟨text, .separator⟩ :: rest.map fun text => ⟨text, .positional⟩)
    else do
      let kind ← spec.kindOf text
      return ⟨text, kind⟩ :: (← spec.classify rest)

/-! ## All arguments -/

structure ParsedArguments where
  flags : List String
  values : List (String × String)
  positionals : List (String × List String)
  extras : List String
  /-- The positional arguments that have not come yet. -/
  pending : List PositionalSpec
deriving Repr

namespace ParsedArguments

def keyOf (option : OptionSpec) : String := option.names.getLast?.getD ""

def hasFlag (p : ParsedArguments) (name : String) : Bool := p.flags.contains name

def valuesOf (p : ParsedArguments) (name : String) : List String :=
  (p.values.filter (·.1 == name)).map (·.2)

def value? (p : ParsedArguments) (name : String) : Option String := (p.valuesOf name).getLast?

def positional (p : ParsedArguments) (name : String) : List String :=
  (p.positionals.lookup name).getD []

def addExtras (p : ParsedArguments) (texts : List String) : ParsedArguments :=
  { p with extras := p.extras ++ texts }

def checkValue (option : OptionSpec) (kind : ValueKind) (value : String) :
    Except ArgumentFault Unit :=
  match kind with
  | .any => .ok ()
  | .integer =>
    match readInteger 10 value with
    | .ok _ => .ok ()
    | .error _ => .error (.notAnInteger option value)
  | .choice words =>
    if words.contains value then .ok () else .error (.notAChoice option value words)

def addValue (p : ParsedArguments) (option : OptionSpec) (kind : ValueKind) (value : String) :
    Except ArgumentFault ParsedArguments := do
  checkValue option kind value
  return { p with values := p.values ++ [(keyOf option, value)] }

def addFlag (p : ParsedArguments) (option : OptionSpec) : Except ArgumentFault ParsedArguments :=
  if option.kind = .help then .error .helpAsked
  else .ok { p with flags := p.flags ++ [keyOf option] }

/-! ### Positional arguments -/

def isPositional (a : Argument) : Bool := a.kind == .positional

def isSeparator (a : Argument) : Bool := a.kind == .separator

/-- How many arguments one positional argument takes, with the separators around it. -/
def takenBy (spec : PositionalSpec) (arguments : List Argument) : Option Nat :=
  if spec.repeats then
    some (arguments.takeWhile fun a => isPositional a || isSeparator a).length
  else
    let before := (arguments.takeWhile isSeparator).length
    match arguments.drop before with
    | a :: rest =>
      if isPositional a then some (before + 1 + (rest.takeWhile isSeparator).length) else none
    | [] => none

/-- Takes as many of the open positional arguments as stand here, and gives what is left. -/
def takePositionals (p : ParsedArguments) (arguments : List Argument) :
    ParsedArguments × List Argument :=
  go p.pending p arguments
where
  go : List PositionalSpec → ParsedArguments → List Argument → ParsedArguments × List Argument
    | [], p, arguments => (p, arguments)
    | spec :: specs, p, arguments =>
      match takenBy spec arguments with
      | none => (p, arguments)
      | some count =>
        let texts := ((arguments.take count).map (·.text)).erase separatorText
        let p := { p with
          positionals := p.positionals ++ [(spec.name, texts)], pending := specs }
        go specs p (arguments.drop count)

/-! ### Options -/

/--
Takes an option that is given with a value in the same argument. Short options without a value take
it for more short options, in `fuel` steps. The result tells whether the next argument may be the
value of the last option.
-/
def takeAttached (spec : CommandSpec) : Nat → ParsedArguments → List OptionSpec → GivenOption →
    Except ArgumentFault (ParsedArguments × Option GivenOption × List OptionSpec)
  | 0, p, taken, _ => .ok (p, none, taken)
  | fuel + 1, p, taken, given =>
    match given.attached with
    | none => .ok (p, some given, taken)
    | some value =>
      match given.option.kind with
      | .value _ => .ok (p, some given, taken)
      | .flag | .help =>
        match startsWithChars ['-', '-'] given.name.toList, value.text.toList with
        | true, _ | _, [] => .error (.ignoredValue given.option value.text)
        | false, c :: rest =>
          if value.behindEquals || c == '-' then
            .error (.ignoredValue given.option value.text)
          else
            let taken := taken ++ [given.option]
            let name := String.ofList ['-', c]
            match spec.named? name with
            | none => .ok (p.addExtras ["-" ++ value.text], none, taken)
            | some option =>
              let attached := match rest with
                | [] => none
                | '=' :: rest => some ⟨String.ofList rest, true⟩
                | rest => some ⟨String.ofList rest, false⟩
              takeAttached spec fuel p taken ⟨option, name, attached⟩

/-- Takes the option `given`, with a value from the arguments behind it where it needs one. -/
def takeOption (spec : CommandSpec) (p : ParsedArguments) (given : GivenOption)
    (behind : List Argument) : Except ArgumentFault (ParsedArguments × List Argument) := do
  let length := (given.attached.map (·.text.length)).getD 0
  let (p, last, flags) ← takeAttached spec (length + 1) p [] given
  match last with
  | none => return (← flags.foldlM addFlag p, behind)
  | some given =>
    match given.option.kind, given.attached, behind with
    | .value kind, some value, _ =>
      return (← (← flags.foldlM addFlag p).addValue given.option kind value.text, behind)
    | .value kind, none, argument :: rest =>
      if isPositional argument then
        return (← (← flags.foldlM addFlag p).addValue given.option kind argument.text, rest)
      else throw (.missingValue given.option)
    | .value _, none, [] => throw (.missingValue given.option)
    | _, _, _ => return (← (flags ++ [given.option]).foldlM addFlag p, behind)

/-! ### Both in turn -/

/-- Takes the arguments in `fuel` steps: positional ones up to an option, then the option. -/
def takeAll (spec : CommandSpec) : Nat → ParsedArguments → List Argument →
    Except ArgumentFault ParsedArguments
  | 0, p, _ => .ok p
  | fuel + 1, p, arguments =>
    match arguments.span (!·.kind.isOption) with
    | (_, []) =>
      let (p, rest) := p.takePositionals arguments
      .ok (p.addExtras (rest.map (·.text)))
    | ([], argument :: rest) =>
      match argument.kind with
      | .option given => do
        let (p, rest) ← takeOption spec p given rest
        takeAll spec fuel p rest
      | _ => takeAll spec fuel (p.addExtras [argument.text]) rest
    | (before, fromOption) =>
      let (p, rest) := p.takePositionals arguments
      if rest.length < arguments.length then takeAll spec fuel p rest
      else takeAll spec fuel (p.addExtras (before.map (·.text))) fromOption

end ParsedArguments

def OptionSpec.usage (option : OptionSpec) : String :=
  match option.kind with
  | .value _ => "[" ++ option.label ++ " VALUE]"
  | .flag | .help => "[" ++ option.label ++ "]"

def PositionalSpec.usage (positional : PositionalSpec) : String :=
  if positional.repeats then "[" ++ positional.name ++ " ...]" else positional.name

def CommandSpec.usage (spec : CommandSpec) : String :=
  " ".intercalate (["usage:", spec.program] ++ spec.options.map (·.usage) ++
    spec.positionals.map (·.usage))

def CommandSpec.parse (spec : CommandSpec) (arguments : List String) :
    Except ArgumentFault ParsedArguments := do
  let classified ← spec.classify arguments
  let p ← ParsedArguments.takeAll spec (2 * classified.length + 1)
    ⟨[], [], [], [], spec.positionals⟩ classified
  let missing := p.pending.filter (!·.repeats)
  if !missing.isEmpty then throw (.missing (missing.map (·.name)))
  if !p.extras.isEmpty then throw (.unrecognized p.extras)
  return p

end JsonSchema
