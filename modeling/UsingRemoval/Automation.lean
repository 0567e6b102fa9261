import UsingRemoval.CommandLine
import UsingRemoval.Fixtures

/-!
Commands for work on the project itself: running its tests and checking its fixtures.
-/

set_option autoImplicit false

namespace UsingRemoval.Automation

inductive Command where
  /-- Runs the tests, perhaps with a profile and perhaps optimised. -/
  | nextest (profile : Option String) (release : Bool)
  /-- Checks the fixtures under a directory. -/
  | fixtures (directory : String)
  deriving DecidableEq, Repr

def defaultDirectory : String := "crates/remusing/tests/data"

def helpOption : OptionRule := ⟨"help", some 'h', .help⟩

def rules : CommandRules := ⟨[helpOption, ⟨"version", some 'V', .version⟩], []⟩

def nextestRules : CommandRules :=
  ⟨[⟨"profile", none, .text⟩, ⟨"release", none, .flag⟩, helpOption], []⟩

def fixturesRules : CommandRules :=
  ⟨[⟨"dir", none, .path⟩, helpOption], []⟩

def names : List String := ["nextest", "fixtures", "help"]

/-- The answer to `help` and the names after it, of which at most one is taken. -/
def helpOn : List String → Refusal
  | [] => .helpWanted
  | [name] => if names.contains name then .helpWanted else .unknownCommand
  | _ => .unknownCommand

def parse : List String → Except Refusal Command
  | [] | ["--"] => .error .missingCommand
  | "--" :: name :: _ =>
    .error (if names.contains name then .unknownArgument else .unknownCommand)
  | "nextest" :: rest => do
    let r ← nextestRules.read rest
    return .nextest (r.value? "profile") (r.has "release")
  | "fixtures" :: rest => do
    let r ← fixturesRules.read rest
    return .fixtures ((r.value? "dir").getD defaultDirectory)
  | "help" :: rest => .error (helpOn rest)
  | word :: _ =>
    match word.toList with
    | '-' :: _ :: _ =>
      match rules.read [word] with
      | .error e => .error e
      | .ok _ => .error .unknownArgument
    | _ => .error .unknownCommand

inductive Failure where
  | tests
  | fixtures (cause : Fixtures.Failure)
  deriving DecidableEq, Repr

def Failure.message : Failure → String
  | tests => "cargo nextest run failed"
  | fixtures cause => cause.message

structure Outcome where
  result : Except Failure Unit
  stdout : String
  /-- The runs of the build tool, in order. -/
  calls : List (List String)

def nextestArguments (profile : Option String) (release : Bool) : List String :=
  ["nextest", "run"] ++ (profile.map fun name => ["--profile", name]).getD [] ++
    if release then ["--release"] else []

/-- Runs a command. A check of fixtures that comes to its end is summed up, whatever it found. -/
def run (w : Workspace) (tool : Tool) : Command → Outcome
  | .nextest profile release =>
    let call := nextestArguments profile release
    ⟨if (tool call).succeeded then .ok () else .error .tests, "", [call]⟩
  | .fixtures directory =>
    match (Fixtures.checkAll w tool directory).run.run {} with
    | (.error e, tally) => ⟨.error (.fixtures e), "", tally.calls⟩
    | (.ok (), tally) =>
      ⟨if tally.mismatches.isEmpty then .ok () else .error (.fixtures .different),
        tally.summary, tally.calls⟩

end UsingRemoval.Automation
