import JsonSchema.Number.Numeral
import JsonSchema.Text.Basic

/-!
# Why an expression is refused
-/

namespace JsonSchema.Regex

inductive Problem where
  | danglingEscape
  | badEscape (text : String)
  | incompleteEscape (text : String)
  | octalTooLarge (text : String)
  | missing (what : String)
  | unterminatedName (terminator : String)
  | unknownCharacterName (name : String)
  | openGroup
  | sameLookbehind
  | noSuchGroup (group : Nat)
  | badGroupNumber
  | badGroupName (name : String)
  | unknownGroupName (name : String)
  | repeatedGroupName (name : String) (group earlier : Nat)
  | unterminatedSet
  | badRange (low high : String)
  | leastAboveMost
  | nothingToRepeat
  | multipleRepeat
  | unexpectedEnd
  | unknownExtension (text : String)
  | unterminatedComment
  | unterminatedGroup
  | unbalancedGroup
  | tooManyBranches
  | misplacedFlags
  | unknownFlag
  | missingFlag
  | localeFlag
  | exclusiveFlags
  | globalFlagOn
  | globalFlagOff
  | characterSetFlagOff
  | flagOnAndOff
  | lookbehindTooLong
  | lookbehindNotFixed
  | templateRepeat (greedName : String)
deriving DecidableEq, Repr

def Problem.message : Problem → String
  | .danglingEscape => "bad escape (end of pattern)"
  | .badEscape text => "bad escape " ++ text
  | .incompleteEscape text => "incomplete escape " ++ text
  | .octalTooLarge text => "octal escape value " ++ text ++ " outside of range 0-0o377"
  | .missing what => "missing " ++ what
  | .unterminatedName terminator => "missing " ++ terminator ++ ", unterminated name"
  | .unknownCharacterName name => "undefined character name " ++ stringLiteral name
  | .openGroup => "cannot refer to an open group"
  | .sameLookbehind => "cannot refer to group defined in the same lookbehind subpattern"
  | .noSuchGroup n => "invalid group reference " ++ natText n
  | .badGroupNumber => "bad group number"
  | .badGroupName name => "bad character in group name " ++ stringLiteral name
  | .unknownGroupName name => "unknown group name " ++ stringLiteral name
  | .repeatedGroupName name later earlier =>
    "redefinition of group name " ++ stringLiteral name ++ " as group " ++ natText later ++
      "; was group " ++ natText earlier
  | .unterminatedSet => "unterminated character set"
  | .badRange low high => "bad character range " ++ low ++ "-" ++ high
  | .leastAboveMost => "min repeat greater than max repeat"
  | .nothingToRepeat => "nothing to repeat"
  | .multipleRepeat => "multiple repeat"
  | .unexpectedEnd => "unexpected end of pattern"
  | .unknownExtension text => "unknown extension ?" ++ text
  | .unterminatedComment => "missing ), unterminated comment"
  | .unterminatedGroup => "missing ), unterminated subpattern"
  | .unbalancedGroup => "unbalanced parenthesis"
  | .tooManyBranches => "conditional backref with more than two branches"
  | .misplacedFlags => "global flags not at the start of the expression"
  | .unknownFlag => "unknown flag"
  | .missingFlag => "missing flag"
  | .localeFlag => "bad inline flags: cannot use 'L' flag with a str pattern"
  | .exclusiveFlags => "bad inline flags: flags 'a', 'u' and 'L' are incompatible"
  | .globalFlagOn => "bad inline flags: cannot turn on global flag"
  | .globalFlagOff => "bad inline flags: cannot turn off global flag"
  | .characterSetFlagOff => "bad inline flags: cannot turn off flags 'a', 'u' and 'L'"
  | .flagOnAndOff => "bad inline flags: flag turned on and off"
  | .lookbehindTooLong => "looks too much behind"
  | .lookbehindNotFixed => "look-behind requires fixed-width pattern"
  | .templateRepeat greedName => "internal: unsupported template operator " ++ greedName

/-- Why an expression is refused. All but the first are no faults of its syntax. -/
inductive Fault where
  | bad (problem : Problem) (position : Option Nat)
  | repetitionTooLarge
  | tooManyDigits (count : Nat)
  | asciiAndUnicode
deriving DecidableEq, Repr

/-- A fault beyond the syntax of an expression: it is refused without being told apart as bad. -/
def Fault.IsBeyondSyntax (fault : Fault) : Prop :=
  ∀ problem position, fault ≠ .bad problem position

/-- The message of a problem; its line is told when the expression has several. -/
def problemText (source : List Char) (problem : Problem) : Option Nat → String
  | none => problem.message
  | some position =>
    let place := Place.after (source.take position)
    let lines := if source.contains '\n' then
        " (line " ++ natText place.line ++ ", column " ++ natText place.column ++ ")"
      else ""
    problem.message ++ " at position " ++ natText position ++ lines

def Fault.message (source : String) : Fault → String
  | .bad problem position => problemText source.toList problem position
  | .repetitionTooLarge => "the repetition number is too large"
  | .tooManyDigits count => tooManyDigitsMessage count
  | .asciiAndUnicode => "ASCII and UNICODE flags are incompatible"

end JsonSchema.Regex
