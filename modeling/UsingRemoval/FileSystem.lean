/-!
A tree of files and directories, addressed by paths. Names are looked up one after another, so a
missing name or a file in the middle of a path is an error of its own kind.
-/

set_option autoImplicit false

namespace UsingRemoval

inductive OsError where
  | notFound
  | alreadyExists
  | notADirectory
  | isADirectory
  /-- An error of another kind, with its text. -/
  | other (text : String)
  deriving DecidableEq, Repr

def OsError.message : OsError → String
  | notFound => "No such file or directory (os error 2)"
  | alreadyExists => "File exists (os error 17)"
  | notADirectory => "Not a directory (os error 20)"
  | isADirectory => "Is a directory (os error 21)"
  | other text => text

inductive Library where
  /-- Exports a grammar with this ABI version. -/
  | grammar (abi : Nat)
  /-- Exports no grammar. -/
  | noSymbol
  deriving DecidableEq, Repr

inductive Contents where
  | bytes (data : List UInt8)
  | library (image : Library)
  deriving DecidableEq, Repr

/-- A file with its permissions and the time of its last change. -/
structure File where
  contents : Contents
  mode : Nat
  modified : Int
  deriving DecidableEq, Repr

inductive Entry where
  /-- A directory changes when an entry comes into it or goes from it. -/
  | directory (modified : Int)
  | file (file : File)
  deriving DecidableEq, Repr

namespace Entry

def modified : Entry → Int
  | directory modified => modified
  | file f => f.modified

def file? : Entry → Option File
  | directory _ => none
  | file f => some f

end Entry

/-- The bytes of a file; the image of a library is not looked into. -/
def Contents.data : Contents → List UInt8
  | bytes data => data
  | library _ => []

structure FileSystem where
  entries : List (List String × Entry)
  /-- The root has no name to stand among the entries, only a time. -/
  rootModified : Int := 0
  deriving Repr

namespace FileSystem

def find? (fs : FileSystem) (place : List String) : Option Entry :=
  if place = [] then some (.directory fs.rootModified) else fs.entries.lookup place

def put (fs : FileSystem) (place : List String) (entry : Entry) : FileSystem :=
  { fs with entries := (place, entry) :: fs.entries.filter fun e => e.1 != place }

def remove (fs : FileSystem) (place : List String) : FileSystem :=
  { fs with entries := fs.entries.filter fun e => e.1 != place }

/-- The directory at a place counts as changed. -/
def touch (fs : FileSystem) (place : List String) (now : Int) : FileSystem :=
  if place = [] then { fs with rootModified := now }
  else match fs.find? place with
    | some (.directory _) => fs.put place (.directory now)
    | _ => fs

def link (fs : FileSystem) (place : List String) (entry : Entry) (now : Int) : FileSystem :=
  (fs.put place entry).touch place.dropLast now

def unlink (fs : FileSystem) (place : List String) (now : Int) : FileSystem :=
  (fs.remove place).touch place.dropLast now

/-- A name that nothing has, since it is longer than all names there are. -/
def unusedName (fs : FileSystem) : String :=
  let longest := fs.entries.foldr (fun e most => max (e.1.getLastD "").length most) 0
  ".tmp" ++ String.ofList (List.replicate longest '0')

/-- A place that a path leads to: its directory exists, it need not. -/
structure Place where
  names : List String
  /-- Whether the path can only mean a directory. -/
  asDirectory : Bool
  deriving DecidableEq, Repr

def walk (fs : FileSystem) (here : List String) : List String → Except OsError Place
  | [] => .ok ⟨here, true⟩
  | "." :: rest => fs.walk here rest
  | ".." :: rest => fs.walk here.dropLast rest
  | [name] => .ok ⟨here ++ [name], false⟩
  | name :: rest =>
    match fs.find? (here ++ [name]) with
    | none => .error .notFound
    | some (.file _) => .error .notADirectory
    | some (.directory _) => fs.walk (here ++ [name]) rest

def place (fs : FileSystem) (cwd : List String) (path : String) : Except OsError Place :=
  match path.toList with
  | [] => .error .notFound
  | first :: rest => do
    let names := (((first :: rest).splitOn '/').map String.ofList).filter (· != "")
    let found ← fs.walk (if first = '/' then [] else cwd) names
    return { found with
      asDirectory := found.asDirectory || (first :: rest).getLast? == some '/' }

def entry (fs : FileSystem) (cwd : List String) (path : String) : Except OsError Entry := do
  let p ← fs.place cwd path
  match fs.find? p.names with
  | none => .error .notFound
  | some (.file f) => if p.asDirectory then .error .notADirectory else return .file f
  | some (.directory modified) => return .directory modified

def newFileMode : Nat := 0o644

/-- Writes a file. An existing file keeps its permissions. -/
def write (fs : FileSystem) (cwd : List String) (now : Int) (path : String) (contents : Contents) :
    Except OsError FileSystem := do
  let p ← fs.place cwd path
  match fs.find? p.names with
  | some (.directory _) => .error .isADirectory
  | some (.file f) =>
    if p.asDirectory then .error .notADirectory
    else return fs.put p.names (.file { f with contents, modified := now })
  | none =>
    if p.asDirectory then .error .isADirectory
    else return fs.link p.names (.file ⟨contents, newFileMode, now⟩) now

def createDirectory (fs : FileSystem) (cwd : List String) (now : Int) (path : String) :
    Except OsError FileSystem := do
  let p ← fs.place cwd path
  match fs.find? p.names with
  | some _ => .error .alreadyExists
  | none => return fs.link p.names (.directory now) now

/-- Moves the file at a place to where a path leads. A file that stands there goes. -/
def move (fs : FileSystem) (cwd : List String) (now : Int) (place : List String) (path : String) :
    Except OsError FileSystem := do
  let p ← fs.place cwd path
  match fs.find? place, fs.find? p.names with
  | some (.file _), some (.directory _) => .error .isADirectory
  | some (.file f), _ =>
    if p.asDirectory then .error .notADirectory
    else return (fs.unlink place now).link p.names (.file f) now
  | _, _ => .error .notFound

def children (fs : FileSystem) (names : List String) : List String :=
  fs.entries.filterMap fun e =>
    match e.1.getLast? with
    | some name => if e.1.dropLast = names then some name else none
    | none => none

end FileSystem

end UsingRemoval
