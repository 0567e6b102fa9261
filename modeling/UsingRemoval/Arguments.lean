import UsingRemoval.CommandLine

/-!
The arguments of the program, and where a run reads and writes according to them.
-/

set_option autoImplicit false

namespace UsingRemoval

structure Arguments where
  infile : Option String := none
  outfile : Option String := none
  inPlace : Bool := false
  tsSource : Option String := none
  tsOut : Option String := none
  init : Bool := false
  plan : Bool := false
  verbose : Nat := 0
  deriving DecidableEq, Repr

inductive Input where
  | stdin
  | file (path : String)
  deriving DecidableEq, Repr

inductive Output where
  | stdout
  | file (path : String)
  | inPlace (path : String)
  deriving DecidableEq, Repr

structure Invocation where
  input : Input
  output : Output
  deriving DecidableEq, Repr

inductive UsageError where
  | inPlaceWithOutput
  | missingInput
  deriving DecidableEq, Repr

def UsageError.message : UsageError → String
  | inPlaceWithOutput => "cannot combine --in-place with an output file"
  | missingInput => "no input file given and standard input is a terminal"

namespace Arguments

def rules : CommandRules where
  options := [
    ⟨"in-place", some 'i', .flag⟩,
    ⟨"ts-source", some 't', .path⟩,
    ⟨"ts-out", some 's', .path⟩,
    ⟨"init", none, .flag⟩,
    ⟨"plan", none, .flag⟩,
    ⟨"verbose", some 'v', .counter⟩,
    ⟨"help", some 'h', .help⟩,
    ⟨"version", some 'V', .version⟩]
  positionals := ["infile", "outfile"]

def maxVerbose : Nat := 255

def parse (words : List String) : Except Refusal Arguments := do
  let r ← rules.read words
  return {
    infile := r.value? "infile"
    outfile := r.value? "outfile"
    inPlace := r.has "in-place"
    tsSource := r.value? "ts-source"
    tsOut := r.value? "ts-out"
    init := r.has "init"
    plan := r.has "plan"
    verbose := min (r.count "verbose") maxVerbose }

/-- Where the output goes, given the input: `-` means standard output, and what is read from
standard input is never replaced in place. -/
def outputFor (a : Arguments) (input : Input) : Output :=
  match input, a.outfile with
  | .file path, none => if a.inPlace then .inPlace path else .stdout
  | _, some "-" => .stdout
  | _, some path => .file path
  | _, none => .stdout

/-- Where to read and write. A missing input file means standard input, unless that is a terminal;
so does `-`. -/
def invocation (a : Arguments) (stdinIsTerminal : Bool) : Except UsageError Invocation := do
  if a.inPlace && a.outfile.isSome then throw .inPlaceWithOutput
  let input ← match a.infile with
    | some "-" => pure Input.stdin
    | some path => pure (Input.file path)
    | none => if stdinIsTerminal then throw .missingInput else pure Input.stdin
  return ⟨input, a.outputFor input⟩

def versionText : String := "remusing 0.1.0\n"

def helpText : String :=
  "Remove C++ `using` declarations and qualify the names they imported

Usage: remusing [OPTIONS] [INFILE] [OUTFILE]

Arguments:
  [INFILE]   C++ file input (default: stdin; `-` reads stdin explicitly)
  [OUTFILE]  Refactored C++ file output (default: stdout)

Options:
  -i, --in-place         Overwrite the input file with the changes
  -t, --ts-source <DIR>  Tree-sitter C++ grammar source directory (default: bundled grammar)
  -s, --ts-out <PATH>    Compiled tree-sitter grammar library path
      --init             Build or verify the grammar only, then exit
      --plan             Print the planned edits as JSON instead of rewriting
  -v, --verbose...       Increase log verbosity (-v info, -vv debug, -vvv trace)
  -h, --help             Print help
  -V, --version          Print version
"

end Arguments

end UsingRemoval
