import JsonSchema.Number.Numeral
import JsonSchema.Text.Basic

/-!
# Settings

The settings of a run come from environment variables and from the command line.
-/

namespace JsonSchema

structure Settings where
  maxDepth : Int := 1000
  strict : Bool := false
  assertFormats : Bool := false
  logLevel : String := "INFO"
  printLevel : String := "ERROR"
  cacheEnabled : Bool := true
deriving DecidableEq, Repr, Inhabited

namespace Settings

/-- The texts that switch a flag on, in any letter case and with blanks around them. -/
def onTexts : List String := ["1", "true", "yes", "on"]

def isOn (text : String) : Bool := onTexts.contains (lowerAscii (stripBlanks text))

/-- The variables of the environment that this program knows start with this text. -/
def variableStem : String := "SCHEMA_VALIDATOR_"

def variableNames : List String :=
  ["MAX_DEPTH", "STRICT", "ASSERT_FORMATS", "LOG_LEVEL", "PRINT_LEVEL", "CACHE_ENABLED"].map
    (variableStem ++ ·)

/-- The settings of an environment; a variable that is not set leaves its default. -/
def ofEnvironment (lookup : String → Option String) : Except NumeralFault Settings := do
  let get (name fallback : String) := (lookup (variableStem ++ name)).getD fallback
  let maxDepth ← readInteger 10 (get "MAX_DEPTH" "1000")
  return {
    maxDepth
    strict := isOn (get "STRICT" "false")
    assertFormats := isOn (get "ASSERT_FORMATS" "false")
    logLevel := get "LOG_LEVEL" "INFO"
    printLevel := get "PRINT_LEVEL" "ERROR"
    cacheEnabled := isOn (get "CACHE_ENABLED" "true")
  }

end Settings

end JsonSchema
