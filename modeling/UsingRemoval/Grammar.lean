import UsingRemoval.Config
import UsingRemoval.Text.Quoted

/-!
The grammar of the parser: the bundled one, or one compiled from a source directory into a shared
library. A compiled library is kept and used again until one of its sources is newer.
-/

set_option autoImplicit false

namespace UsingRemoval

inductive GrammarError where
  | noParserSource (directory : String)
  | compilation (report : String)
  /-- The file exports no grammar. -/
  | load (path : String)
  | incompatible (path : String) (abi : Nat)
  | io (cause : OsError)
  deriving DecidableEq, Repr

def supportedAbi : Nat × Nat := (13, 14)

namespace GrammarError

def abiReport (abi : Nat) : String :=
  "Incompatible language version " ++ toString abi ++ ". Expected minimum " ++
    toString supportedAbi.1 ++ ", maximum " ++ toString supportedAbi.2

def message : GrammarError → String
  | noParserSource directory => "no parser.c found in " ++ directory
  | compilation report => "grammar compilation failed: " ++ report
  | load path => "failed to load grammar library " ++ path
  | incompatible path abi =>
    "grammar at " ++ path ++ " is incompatible with this tree-sitter runtime: " ++ abiReport abi
  | io cause => cause.message

def fullMessage (e : GrammarError) : String :=
  match e with
  | incompatible _ abi => e.message ++ ": " ++ abiReport abi
  | _ => e.message

end GrammarError

/-! ### Compilers -/

structure CompilerCall where
  /-- Whether C++ is compiled, not C. -/
  cxx : Bool
  arguments : List String
  deriving DecidableEq, Repr

inductive CompilerOutcome where
  /-- The library was written with these contents. -/
  | produced (contents : Contents)
  /-- The call succeeded and wrote nothing. -/
  | nothing
  /-- The call failed with this on its error stream. -/
  | failed (report : List UInt8)
  /-- There is no compiler to call, for this reason. -/
  | absent (report : String)

/-- A compiler: how its options are spelt and what it does with the files it is given. -/
structure Compiler where
  /-- Whether options begin with a slash. -/
  slashOptions : Bool := false
  run : FileSystem → CompilerCall → CompilerOutcome

structure Workshop where
  workspace : Workspace
  compiler : Compiler
  /-- The calls of the compiler, the latest first. -/
  calls : List CompilerCall := []

/-- Work that may fail and may leave files either way. -/
abbrev Work (α : Type) := ExceptT GrammarError (StateM Workshop) α

/-! ### Building -/

inductive Origin where
  | bundled
  | compiled (path : String)
  deriving DecidableEq, Repr

structure Grammar where
  origin : Origin
  abi : Nat
  deriving DecidableEq, Repr

inductive BuildStatus where
  | alreadyBuilt
  | built
  deriving DecidableEq, Repr

namespace Grammar

def bundled : Grammar := ⟨.bundled, 14⟩

def describe (g : Grammar) : String :=
  let origin := match g.origin with
    | .bundled => "Bundled"
    | .compiled path => "Compiled(" ++ Quoted.render path ++ ")"
  "Grammar \x7b origin: " ++ origin ++ ", abi_version: " ++ toString g.abi ++ " \x7d"

def libraryExtension : String := "so"

def defaultOptions (e : Environment) : GrammarOptions := ⟨none, e.defaultLibrary⟩

/-- The directory of `parser.c`: `src` in the source directory, if it is there, or else the source
directory itself. -/
def sourceDirectory (w : Workspace) (source : String) : String :=
  let nested := Path.join source "src"
  if w.has (Path.join nested "parser.c") then nested else source

def sourceNames : List String := ["parser.c", "scanner.c", "scanner.cc"]

/-- Whether the library is missing or older than one of the sources there are. -/
def isStale (w : Workspace) (directory library : String) : Bool :=
  match w.modified? library with
  | none => true
  | some built => sourceNames.any fun name =>
    match w.modified? (Path.join directory name) with
    | none => false
    | some changed => built < changed

def compilerCall (w : Workspace) (slashOptions : Bool) (directory library : String) :
    CompilerCall :=
  let inDirectory := Path.join directory
  let cxx := w.has (inDirectory "scanner.cc")
  let options :=
    if slashOptions then ["/nologo", "/LD", "/utf-8", "/I" ++ directory, "/Fe:" ++ library]
    else ["-shared", "-fPIC", "-fno-exceptions", "-I", directory, "-o", library]
  let scanner :=
    if cxx then inDirectory "scanner.cc" :: (if slashOptions then [] else ["-lstdc++"])
    else if w.has (inDirectory "scanner.c") then [inDirectory "scanner.c"]
    else []
  ⟨cxx, options ++ inDirectory "parser.c" :: scanner⟩

/-- The workspace with what a compiler wrote. Nothing becomes of it if there is no place for it. -/
def deliver (w : Workspace) (library : String) (contents : Contents) : Workspace :=
  match w.files.write w.cwd w.now library contents with
  | .ok files => { w with files }
  | .error _ => w

def compile (directory library : String) : Work Unit := do
  let shop ← get
  let call := compilerCall shop.workspace shop.compiler.slashOptions directory library
  match shop.compiler.run shop.workspace.files call with
  | .absent report => throw (.compilation report)
  | .failed report =>
    set { shop with calls := call :: shop.calls }
    throw (.compilation (Utf8.decodeLossy report))
  | .nothing => set { shop with calls := call :: shop.calls }
  | .produced contents =>
    set { shop with
      calls := call :: shop.calls
      workspace := deliver shop.workspace library contents }

def prepare (library : String) : Work Unit := do
  match Path.parent? library with
  | some "" | none => return
  | some up =>
    let shop ← get
    let (made, workspace) := shop.workspace.createAll up
    set { shop with workspace }
    match made with
    | .ok () => return
    | .error e => throw (.io e)

/-- Compiles a grammar into a library, unless the library is up to date and no build is forced. -/
def build (source library : String) (force : Bool) : Work BuildStatus := do
  let w := (← get).workspace
  let directory := sourceDirectory w source
  if !w.has (Path.join directory "parser.c") then throw (.noParserSource directory)
  if !force && !isStale w directory library then return .alreadyBuilt
  prepare library
  compile directory library
  if (← get).workspace.has library then return .built
  throw (.compilation ("compiler succeeded but " ++ library ++ " was not produced"))

/-- The grammar in a library. A path without a slash is never looked up among the files. -/
def ofLibrary (w : Workspace) (path : String) : Except GrammarError Grammar :=
  if !path.toList.contains '/' then .error (.load path)
  else match w.openFile path with
    | .ok ⟨.library (.grammar abi), _, _⟩ =>
      if supportedAbi.1 ≤ abi ∧ abi ≤ supportedAbi.2 then .ok ⟨.compiled path, abi⟩
      else .error (.incompatible path abi)
    | _ => .error (.load path)

def fromLibrary (path : String) : Work Grammar := do
  match ofLibrary (← get).workspace path with
  | .ok grammar => return grammar
  | .error e => throw e

def load (options : GrammarOptions) : Work Grammar :=
  match options.source with
  | none => return bundled
  | some source => do
    let _ ← build source options.library false
    fromLibrary options.library

end Grammar

end UsingRemoval
