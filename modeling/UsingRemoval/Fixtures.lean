import UsingRemoval.Text.Utf8
import UsingRemoval.Workspace

/-!
Fixtures: source files with the expected result beside them. A check runs the program on each
fixture under a directory and compares what it prints with the expectation.
-/

set_option autoImplicit false

namespace UsingRemoval

structure ToolResult where
  succeeded : Bool
  stdout : List UInt8
  stderr : List UInt8

abbrev Tool := List String → ToolResult

namespace Fixtures

def expectedSuffix : String := ".expected.cpp"

def sourceSuffix : String := ".cpp"

/-- The expectation beside a source, if there is one. Expectations have none of their own. -/
def expectedPath? (w : Workspace) (path : String) : Option String := do
  let name ← Path.fileName? path
  if (Path.stripSuffix? name expectedSuffix).isSome then none
  let stem ← Path.stripSuffix? name sourceSuffix
  let expected := Path.withFileName path (stem ++ expectedSuffix)
  if w.has expected then some expected else none

inductive Failure where
  | unwalkable (path : String) (cause : OsError)
  /-- The program failed on a fixture. -/
  | refused (path : String) (report : List UInt8)
  | unreadable (path : String) (cause : OsError)
  | different
  deriving DecidableEq, Repr

def Failure.message : Failure → String
  | unwalkable path cause =>
    "IO error for operation on " ++ path ++ ": " ++ cause.message ++ ": " ++ cause.message
  | refused path report => "remusing failed on " ++ path ++ ": " ++ Utf8.decodeLossy report
  | unreadable path cause => "failed to read " ++ path ++ ": " ++ cause.message
  | different => "fixture output differs from expectations"

structure Tally where
  /-- The runs of the tool, in order. -/
  calls : List (List String) := []
  checked : Nat := 0
  /-- The sources whose output is not as expected. -/
  mismatches : List String := []

abbrev Check (α : Type) := ExceptT Failure (StateM Tally) α

def runArguments (path : String) : List String :=
  ["run", "--quiet", "-p", "remusing", "--", path]

def checkFixture (w : Workspace) (tool : Tool) (path expected : String) : Check Unit := do
  let call := runArguments path
  modify fun tally => { tally with calls := tally.calls ++ [call] }
  let result := tool call
  if !result.succeeded then throw (.refused path result.stderr)
  match w.read expected with
  | .error e => throw (.unreadable expected e)
  | .ok wanted => modify fun tally => { tally with
      checked := tally.checked + 1
      mismatches := tally.mismatches ++ if result.stdout = wanted then [] else [path] }

def checkPaths (w : Workspace) (tool : Tool) : List String → Check Unit
  | [] => return
  | path :: rest => do
    match expectedPath? w path with
    | none => pure ()
    | some expected => checkFixture w tool path expected
    checkPaths w tool rest

def Tally.summary (t : Tally) : String :=
  toString t.checked ++ " fixture(s) checked, " ++ toString t.mismatches.length ++
    " mismatch(es)\n"

def checkAll (w : Workspace) (tool : Tool) (directory : String) : Check Unit := do
  match w.walk directory with
  | .error e => throw (.unwalkable directory e)
  | .ok paths => checkPaths w tool paths

end Fixtures

end UsingRemoval
