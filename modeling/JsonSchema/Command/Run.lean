import JsonSchema.Batch.Validation
import JsonSchema.Command.Arguments
import JsonSchema.Schema.Compile
import JsonSchema.Settings

/-!
# Running a command

A command reads files, prints lines to two streams and ends with an exit status. Its log records go
to the same streams, in between the other lines.
-/

namespace JsonSchema

structure CommandOutcome where
  exit : Nat
  output : String
  error : String
deriving DecidableEq, Repr

def Settings.logSplit (s : Settings) : LogSplit :=
  .ofLevels ((LogLevel.ofName? s.logLevel).getD LogLevel.info)
    ((LogLevel.ofName? s.printLevel).getD LogLevel.warning)

def Settings.compileOptions (s : Settings) (registry : Registry) : CompileOptions :=
  { maxDepth := s.maxDepth, strict := s.strict, registry }

def Settings.evaluationOptions (s : Settings) : EvaluationOptions :=
  { maxDepth := s.maxDepth, assertFormats := s.assertFormats }

/-! ## Exit statuses -/

namespace ExitStatus

def valid : Nat := 0
def invalid : Nat := 1
def failure : Nat := 2

def ofValid (valid_ : Bool) : Nat := if valid_ then valid else invalid

end ExitStatus

/-! ## Runs -/

structure PrintedLine where
  stream : Stream
  text : String
deriving DecidableEq, Repr

/-- What a run has come to: its loader, and what it has printed, last line first. -/
structure RunState where
  loader : DocumentLoader
  printed : List PrintedLine

/-- Why a run ends before its last step. -/
inductive RunEnd where
  | exit (status : Nat)
  | fault (fault : RunFault)

structure RunContext where
  tree : FileTree
  split : LogSplit

abbrev RunM := ReaderT RunContext (ExceptT RunEnd (StateM RunState))

namespace RunM

def print (stream : Stream) (text : String) : RunM Unit :=
  modify fun s => { s with printed := ⟨stream, text⟩ :: s.printed }

def log (records : Log) : RunM Unit := do
  let split := (← read).split
  records.forM fun record => do
    if let some stream := split.stream? record.level then print stream record.line

def debug (logger message : String) : RunM Unit := log [⟨logger, LogLevel.debug, message⟩]

def exit {α : Type} (status : Nat) : RunM α := throw (.exit status)

def stop {α : Type} (fault : RunFault) : RunM α := throw (.fault fault)

def fail {α : Type} (message : String) : RunM α := do
  print .error ("Error: " ++ message)
  exit ExitStatus.failure

def finishLoad {α : Type} (loaded : Loaded α) : RunM (Except LoadFault α) := do
  modify fun s => { s with loader := loaded.loader }
  log loaded.log
  return loaded.result

/-- The result of loading; a fault of the input ends the run with a message. -/
def expectLoaded {α : Type} (what : String) (loaded : Loaded α) : RunM α := do
  match ← finishLoad loaded with
  | .ok value => return value
  | .error fault =>
    if fault.isOfInput then fail (what ++ ": " ++ fault.message) else stop (.load fault)

def load (what : String) (path : FilePath) : RunM Json := do
  expectLoaded what ((← get).loader.load (← read).tree path)

def loadLocated (what : String) (path : FilePath) : RunM LocatedDocument := do
  expectLoaded what ((← get).loader.loadLocated (← read).tree path)

end RunM

def streamText (stream : Stream) (printed : List PrintedLine) : String :=
  String.join ((printed.filter (·.stream == stream)).map (·.text ++ "\n"))

def CommandOutcome.ofPrinted (exit : Nat) (printed : List PrintedLine) : CommandOutcome :=
  ⟨exit, streamText .output printed, streamText .error printed⟩

def RunM.outcome (run : RunM Nat) (tree : FileTree) (settings : Settings) :
    Except RunFault CommandOutcome :=
  let start : RunState := ⟨.empty settings.cacheEnabled, []⟩
  let (result, state) := ((run.run ⟨tree, settings.logSplit⟩).run).run start
  let printed := state.printed.reverse
  match result with
  | .ok status => .ok (.ofPrinted status printed)
  | .error (.exit status) => .ok (.ofPrinted status printed)
  | .error (.fault fault) => .error fault

def CommandSpec.outcome (spec : CommandSpec) (arguments : List String)
    (run : ParsedArguments → Except RunFault CommandOutcome) : Except RunFault CommandOutcome :=
  match spec.parse arguments with
  | .ok parsed => run parsed
  | .error .helpAsked => .ok ⟨ExitStatus.valid, spec.usage ++ "\n", ""⟩
  | .error fault =>
    .ok ⟨ExitStatus.failure, "", spec.program ++ ": error: " ++ fault.message ++ "\n"⟩

def ParsedArguments.path (p : ParsedArguments) (name : String) : Except RunFault FilePath :=
  match p.positional name with
  | text :: _ => .ok (.ofText text)
  | [] => .error (.noPath name)

/-! ## Output formats -/

inductive OutputFormat where
  | human | json | commands
deriving DecidableEq, Repr

namespace OutputFormat

def words : List (String × OutputFormat) :=
  [("human", human), ("json", json), ("github-actions", commands)]

def spec : OptionSpec := ⟨["--format"], .value (.choice (words.map (·.1)))⟩

def ofArguments (p : ParsedArguments) : OutputFormat :=
  ((p.value? "--format").bind fun word => words.lookup word).getD human

end OutputFormat

end JsonSchema
