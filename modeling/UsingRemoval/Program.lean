import UsingRemoval.Arguments
import UsingRemoval.Grammar
import UsingRemoval.PlanReport
import UsingRemoval.Session
import UsingRemoval.SourceFile

/-!
A run of the program: configuration, then input, then grammar, then the removal, then output.
The first failure ends the run, so nothing is written unless everything before went well.
-/

set_option autoImplicit false

namespace UsingRemoval

structure Host where
  workshop : Workshop
  environment : Environment
  stdin : List UInt8
  stdinIsTerminal : Bool := false
  parser : Grammar → Parser
  /-- What a grammar objects to in the shapes that are looked for, if it does. -/
  objection : Grammar → Option String := fun _ => none
  stdout : List UInt8 := []

inductive RunError where
  | config (cause : ConfigError)
  | usage (cause : UsageError)
  | file (cause : FileError)
  /-- There is no grammar for the removal. -/
  | grammar (cause : GrammarError)
  /-- The grammar could not be built on its own. -/
  | build (cause : GrammarError)
  | removal (cause : RemovalError)
  /-- A line of progress could not be printed. The program panics then. -/
  | unprinted (cause : OsError)
  deriving DecidableEq, Repr

namespace RunError

def messageWith (grammarText : GrammarError → String) : RunError → String
  | config cause => cause.message
  | usage cause => cause.message
  | file cause => cause.message
  | grammar cause => "failed to load C++ grammar: " ++ grammarText cause
  | build cause => grammarText cause
  | removal cause => cause.message
  | unprinted cause => "failed printing to stdout: " ++ cause.message

def message : RunError → String := messageWith GrammarError.message

/-- The text of an error, down to the causes of its causes. -/
def fullMessage : RunError → String := messageWith GrammarError.fullMessage

end RunError

/-- A step of a run. What it did before it failed stays done. -/
abbrev Run (α : Type) := ExceptT RunError (StateM Host) α

namespace Run

def ofExcept {ε α : Type} (why : ε → RunError) : Except ε α → Run α
  | .ok a => return a
  | .error e => throw (why e)

def work {α : Type} (why : GrammarError → RunError) (job : Work α) : Run α := do
  let host ← get
  let (result, workshop) := job.run.run host.workshop
  set { host with workshop }
  ofExcept why result

def workspace : Run Workspace :=
  return (← get).workshop.workspace

def print (why : OsError → RunError) (data : List UInt8) : Run Unit := do
  ofExcept why ((← workspace).call .standardOutput (.ok ()))
  modify fun host => { host with stdout := host.stdout ++ data }

def printLine (line : String) : Run Unit :=
  print .unprinted (Utf8.encode (line ++ "\n"))

def keep (w : Workspace) : Run Unit :=
  modify fun host => { host with workshop := { host.workshop with workspace := w } }

def readInput : Input → Run (List UInt8)
  | .stdin => do
    let host ← get
    ofExcept (.file ∘ .noInput) (host.workshop.workspace.call .standardInput (.ok host.stdin))
  | .file path => do ofExcept .file (SourceFile.read (← workspace) path)

def writeOutput (data : List UInt8) : Output → Run Unit
  | .stdout => print (.file ∘ .noOutput) data
  | .file path => do keep (← ofExcept .file (SourceFile.write (← workspace) path data))
  | .inPlace path => do
    let (result, w) := SourceFile.exchange (← workspace) path data
    keep w
    ofExcept .file result

/-- Builds the grammar anew and tries it out, or says that the bundled one is there. -/
def setUp (options : GrammarOptions) : Run Unit := do
  printLine "Initializing tree-sitter library..."
  match options.source with
  | some source =>
    printLine ("\tsource: " ++ source)
    printLine ("\toutput: " ++ options.library)
    let _ ← work .build (Grammar.build source options.library true)
    let _ ← work .build (Grammar.fromLibrary options.library)
    printLine "Built!"
  | none =>
    printLine "\tsource: bundled tree-sitter-cpp"
    printLine "Ready!"

/-- Removes the `using` declarations of the input, or prints the plan for that. -/
def remove (arguments : Arguments) (config : Config) (options : GrammarOptions) : Run Unit := do
  let invocation ← ofExcept .usage (arguments.invocation (← get).stdinIsTerminal)
  let source ← readInput invocation.input
  let grammar ← work .grammar (Grammar.load options)
  let host ← get
  let session := Session.start (host.parser grammar) source config.symbols.fallback
    (host.objection grammar)
  if arguments.plan then
    let plan ← ofExcept .removal (session.take Session.makePlan).1
    writeOutput (Utf8.encode (plan.report.render ++ "\n")) .stdout
  else
    let output ← ofExcept .removal (session.take Session.fix).1
    writeOutput output invocation.output

def whole (arguments : Arguments) : Run Unit := do
  let host ← get
  let config ← ofExcept .config (Config.load host.workshop.workspace host.environment)
  let options := config.options host.environment arguments.tsSource arguments.tsOut
  if arguments.init then setUp options
  else remove arguments config options

end Run

namespace Host

def run (host : Host) (arguments : Arguments) : Except RunError Unit × Host :=
  (Run.whole arguments).run.run host

structure Ending where
  code : UInt8
  stderr : String

/-- How a failed run ends. Of a panic only the message is given, not where in the program it was. -/
def Ending.ofError : RunError → Ending
  | .unprinted cause => ⟨101, (RunError.unprinted cause).fullMessage ++ "\n"⟩
  | e => ⟨1, "error: " ++ e.fullMessage ++ "\n"⟩

/-- Runs the program on the words of a command line. Help and version go to standard output; other
command lines that are not taken end with code 2. -/
def execute (host : Host) (words : List String) : Ending × Host :=
  let say (text : String) := { host with stdout := host.stdout ++ Utf8.encode text }
  match Arguments.parse words with
  | .error .helpWanted => (⟨0, ""⟩, say Arguments.helpText)
  | .error .versionWanted => (⟨0, ""⟩, say Arguments.versionText)
  | .error _ => (⟨2, ""⟩, host)
  | .ok arguments =>
    match host.run arguments with
    | (.ok (), host) => (⟨0, ""⟩, host)
    | (.error e, host) => (.ofError e, host)

end Host

end UsingRemoval
