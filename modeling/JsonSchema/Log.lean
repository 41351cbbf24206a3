import JsonSchema.Number.Shortest
import JsonSchema.Text.CodeRanges
import JsonSchema.Text.Basic

/-!
# Log records

A run is a pure computation, so its log is a list of records. Where they are printed is decided
at the end: records below a split level go to one stream and the others to a second one.
-/

namespace JsonSchema

/-! ## Levels -/

namespace LogLevel

def debug : Int := 10
def info : Int := 20
def warning : Int := 30
def error : Int := 40
def critical : Int := 50

/-- The names of the levels; two of them have a second name. -/
def names : List (String × Int) :=
  [("CRITICAL", critical), ("FATAL", critical), ("ERROR", error), ("WARNING", warning),
    ("WARN", warning), ("INFO", info), ("DEBUG", debug), ("NOTSET", 0)]

/-- The capital of a letter that a level name may hold; the dotless i and the long s have one. -/
def capital (c : Char) : Char :=
  if c == 'ı' then 'I' else if c == 'ſ' then 'S' else c.toUpper

def ofName? (name : String) : Option Int :=
  names.lookup (String.ofList ((stripBlanks name).toList.map capital))

/-- The name that a record shows for its level. -/
def shown (level : Int) : String :=
  match names.find? (·.2 == level) with
  | some (name, _) => name
  | none => "Level " ++ intText level

end LogLevel

/-! ## Records -/

structure LogRecord where
  logger : String
  level : Int
  message : String
deriving DecidableEq, Repr

def LogRecord.line (record : LogRecord) : String :=
  record.logger ++ " - " ++ LogLevel.shown record.level ++ " - " ++ record.message

abbrev Log := List LogRecord

/-! ## Two streams -/

inductive Stream where
  | output | error
deriving DecidableEq, Repr

/-- From which level records are kept, and from which level they go to the second stream. -/
structure LogSplit where
  level : Int
  errorLevel : Int
deriving DecidableEq, Repr

/-- The split for two given levels; a split below the debug level makes no sense. -/
def LogSplit.ofLevels (level errorLevel : Int) : LogSplit := ⟨level, max errorLevel LogLevel.debug⟩

/-- The stream that prints a record, if one does. -/
def LogSplit.stream? (split : LogSplit) (level : Int) : Option Stream :=
  if level < split.level then none
  else if split.errorLevel ≤ level then some .error
  else if LogLevel.debug ≤ level then some .output
  else none

end JsonSchema
