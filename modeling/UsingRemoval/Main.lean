import UsingRemoval.Listing
import UsingRemoval.Program

/-!
The program on a real machine. What a run may look at is read first, the run is made on that
picture, and the files that it changed are written back. The syntax tree of the source is taken
from a listing, whose path stands in `REMUSING_TREE`; compilers are not called.
-/

set_option autoImplicit false

namespace UsingRemoval.Machine

def directoryCode : UInt32 := 21

def probe (path : String) : IO (Option Entry) := do
  try
    let data ← IO.FS.readBinFile path
    return some (.file ⟨.bytes data.toList, FileSystem.newFileMode, 0⟩)
  catch
    | .inappropriateType _ code _ =>
      return if code = directoryCode then some (.directory 0) else none
    | _ => return none

def pathOf (names : List String) : String := "/" ++ "/".intercalate names

def namesOf (cwd : List String) (path : String) : List String :=
  (Path.pieces path).foldl (fun names piece =>
    if piece = "" ∨ piece = "." then names
    else if piece = ".." then names.dropLast
    else names ++ [piece]) (if Path.isAbsolute path then [] else cwd)

/-- Adds to the picture what stands at a path and above it. -/
def look (w : Workspace) (path : String) : IO Workspace := do
  let names := namesOf w.cwd path
  let mut files := w.files
  for count in List.range names.length do
    let place := names.take (count + 1)
    if (files.find? place).isNone then
      if let some entry ← probe (pathOf place) then
        files := files.put place entry
  return { w with files }

def lookAll (w : Workspace) (paths : List String) : IO Workspace :=
  paths.foldlM look w

def configPaths (w : Workspace) (e : Environment) : List String :=
  let above := Path.ancestors (w.directory.length + 1) w.directory
  (Config.globalPath? e).toList ++ above.map (Path.join · ".git") ++
    above.map (Path.join · ".remusing/config.toml")

def grammarPaths (o : GrammarOptions) : List String :=
  match o.source with
  | none => []
  | some source => o.library :: [source, Path.join source "src"].flatMap fun directory =>
    Grammar.sourceNames.map (Path.join directory)

def accountHome : IO (Option String) := do
  try
    let status ← IO.FS.readFile "/proc/self/status"
    let accounts ← IO.FS.readFile "/etc/passwd"
    let ids := (status.splitOn "\n").map fun line => line.splitOn "\t"
    let uid := (ids.find? fun fields => fields.head? == some "Uid:").bind fun fields => fields[1]?
    let records := (accounts.splitOn "\n").map fun line => line.splitOn ":"
    return (records.find? fun fields => uid.isSome && fields[2]? == uid).bind fun fields => fields[5]?
  catch _ => return none

def environment : IO Environment :=
  return {
    home := ← IO.getEnv "HOME"
    accountHome := ← accountHome
    configHome := ← IO.getEnv "XDG_CONFIG_HOME"
    tsSource := ← IO.getEnv "REMUSING_TS_SOURCE"
    tsOut := ← IO.getEnv "REMUSING_TS_OUT"
    tmpDir := ← IO.getEnv "TMPDIR" }

/-- The picture of all that a run on these arguments may look at. -/
def picture (e : Environment) (a : Arguments) : IO Workspace := do
  let here := toString (← IO.currentDir)
  let w : Workspace := { files := { entries := [] }, cwd := namesOf [] here, now := 0 }
  let w ← lookAll w (here :: configPaths w e)
  let w ← lookAll w (a.infile.toList ++ a.outfile.toList)
  match Config.load w e with
  | .error _ => return w
  | .ok config => lookAll w (grammarPaths (config.options e a.tsSource a.tsOut))

def listedParser : IO Parser := do
  match ← IO.getEnv "REMUSING_TREE" with
  | none => return fun _ => none
  | some path =>
    let tree := Listing.parse? (← IO.FS.readFile path)
    return fun _ => tree

/-- The bytes of standard input, if a run on these arguments reads it. -/
def standardInput (a : Arguments) (terminal : Bool) : IO (List UInt8) := do
  match a.init, a.invocation terminal with
  | false, .ok ⟨.stdin, _⟩ => return (← (← IO.getStdin).readBinToEnd).toList
  | _, _ => return []

def writeBack (before after : FileSystem) : IO Unit :=
  after.entries.forM fun (names, entry) =>
    if before.find? names = some entry then return
    else match entry with
      | .directory _ => IO.FS.createDirAll (pathOf names)
      | .file ⟨.bytes data, _, _⟩ => IO.FS.writeBinFile (pathOf names) ⟨data.toArray⟩
      | .file _ => return

/-- The host for a run on these words. A command line that is not taken needs no files. -/
def host (words : List String) : IO Host := do
  let e ← environment
  let terminal ← (← IO.getStdin).isTty
  let compiler : Compiler := { run := fun _ _ => .absent OsError.notFound.message }
  match Arguments.parse words with
  | .error _ =>
    let nowhere : Workspace := { files := { entries := [] }, cwd := [], now := 0 }
    return { workshop := ⟨nowhere, compiler, []⟩, environment := e, stdin := []
             parser := fun _ _ => none }
  | .ok a =>
    let parser ← listedParser
    return {
      workshop := ⟨← picture e a, compiler, []⟩
      environment := e
      stdin := ← standardInput a terminal
      stdinIsTerminal := terminal
      parser := fun _ => parser }

end UsingRemoval.Machine

open UsingRemoval in
def main (words : List String) : IO UInt32 := do
  let before ← Machine.host words
  let (ending, after) := before.execute words
  Machine.writeBack before.workshop.workspace.files after.workshop.workspace.files
  (← IO.getStdout).write ⟨after.stdout.toArray⟩
  (← IO.getStderr).putStr ending.stderr
  return ending.code.toUInt32
