import UsingRemoval.FileSystem
import UsingRemoval.Path

/-!
Workspaces: a file system seen from a working directory at a moment. The operating system may refuse
a call for reasons that do not show in the files, with any error. What fails here leaves the files
alone; only the making of a chain of directories may stop half way.
-/

set_option autoImplicit false

namespace UsingRemoval

inductive OsCall where
  | currentDirectory
  | standardInput
  | standardOutput
  | look (path : String)
  | read (path : String)
  | write (path : String)
  | createDirectory (path : String)
  | createTemporary (directory : String)
  | fillTemporary (directory : String)
  | setMode (directory : String)
  | rename (path : String)
  | removeTemporary (directory : String)
  deriving DecidableEq, Repr

structure Workspace where
  files : FileSystem
  cwd : List String
  now : Int
  /-- The error of a call that is refused: who runs the program may lack the permission, the disk
  may be full, a stream may be closed. -/
  refuses : OsCall → Option OsError := fun _ => none

namespace Workspace

/-- What a call comes to that would come to `result` if it were let through. -/
def call {α : Type} (w : Workspace) (c : OsCall) (result : Except OsError α) : Except OsError α :=
  match w.refuses c with
  | some e => .error e
  | none => result

def directory (w : Workspace) : String :=
  "/" ++ "/".intercalate w.cwd

def entry (w : Workspace) (path : String) : Except OsError Entry :=
  w.files.entry w.cwd path

def look (w : Workspace) (path : String) : Except OsError Entry :=
  w.call (.look path) (w.entry path)

def has (w : Workspace) (path : String) : Bool :=
  (w.look path).isOk

def hasDirectory (w : Workspace) (path : String) : Bool :=
  match w.look path with
  | .ok (.directory _) => true
  | _ => false

def modified? (w : Workspace) (path : String) : Option Int :=
  match w.look path with
  | .ok entry => some entry.modified
  | .error _ => none

def mode? (w : Workspace) (path : String) : Option Nat :=
  match w.look path with
  | .ok (.file f) => some f.mode
  | _ => none

/-- The file at a path, for reading. What cannot be seen cannot be opened either. -/
def openFile (w : Workspace) (path : String) : Except OsError File := do
  match ← w.look path with
  | .directory _ => .error .isADirectory
  | .file f => w.call (.read path) (.ok f)

def read (w : Workspace) (path : String) : Except OsError (List UInt8) := do
  return (← w.openFile path).contents.data

def write (w : Workspace) (path : String) (contents : Contents) : Except OsError Workspace := do
  return { w with
    files := ← w.call (.write path) (w.files.write w.cwd w.now path contents) }

def createDirectory (w : Workspace) (path : String) : Except OsError Workspace := do
  return { w with
    files := ← w.call (.createDirectory path) (w.files.createDirectory w.cwd w.now path) }

/-- Makes a directory and those it lies in, for at most `fuel` of them. One that is already there
will do. -/
def ensureDirectories : Nat → String → Workspace → Except OsError Unit × Workspace
  | 0, _, w => (.error .notFound, w)
  | fuel + 1, path, w =>
    let orThere (e : OsError) (w : Workspace) :=
      if w.hasDirectory path then (.ok (), w) else (.error e, w)
    if path = "" then (.ok (), w)
    else match w.createDirectory path with
      | .ok w => (.ok (), w)
      | .error .notFound =>
        match Path.parent? path with
        | none => (.error (.other "failed to create whole tree"), w)
        | some up =>
          match ensureDirectories fuel up w with
          | (.error e, w) => (.error e, w)
          | (.ok (), w) =>
            match w.createDirectory path with
            | .ok w => (.ok (), w)
            | .error e => orThere e w
      | .error e => orThere e w

def createAll (w : Workspace) (path : String) : Except OsError Unit × Workspace :=
  ensureDirectories (path.length + 1) path w

def temporaryMode : Nat := 0o600

def putFile (w : Workspace) (place : List String) (file : File) : Workspace :=
  { w with files := w.files.put place (.file file) }

/-- Makes an empty file under a name of its own in a directory: its place, and the workspace with
it. -/
def createTemporary (w : Workspace) (directory : String) :
    Except OsError (List String × Workspace) := do
  match ← w.call (.createTemporary directory) (w.entry directory) with
  | .file _ => .error .notADirectory
  | .directory _ =>
    let p ← w.files.place w.cwd directory
    let place := p.names ++ [w.files.unusedName]
    let file : File := ⟨.bytes [], temporaryMode, w.now⟩
    return (place, { w with files := w.files.link place (.file file) w.now })

def move (w : Workspace) (place : List String) (path : String) : Except OsError Workspace := do
  return { w with
    files := ← w.call (.rename path) (w.files.move w.cwd w.now place path) }

/-- Takes a temporary file away. If that is refused the file stays, and no one is told. -/
def discard (w : Workspace) (directory : String) (place : List String) : Workspace :=
  match w.call (.removeTemporary directory) (.ok (w.files.unlink place w.now)) with
  | .ok files => { w with files }
  | .error _ => w

/-- The paths of what lies under a place, each directory before its contents and the contents in
the order of their names, at most `fuel` levels deep. -/
def below (w : Workspace) : Nat → List String → String → List String
  | 0, _, path => [path]
  | fuel + 1, names, path =>
    path :: match w.files.find? names with
      | some (.directory _) =>
        ((w.files.children names).mergeSort fun a b => (compare a b).isLE).flatMap fun name =>
          below w fuel (names ++ [name]) (Path.join path name)
      | _ => []

def walk (w : Workspace) (path : String) : Except OsError (List String) := do
  let p ← w.files.place w.cwd path
  let _ ← w.look path
  return w.below (w.files.entries.length + 1) p.names path

end Workspace

end UsingRemoval
