import UsingRemoval.Workspace

/-!
Source files: reading one whole, writing one whole, and replacing one by a finished neighbour so
that there is never a half written file.
-/

set_option autoImplicit false

namespace UsingRemoval

inductive FileError where
  | noInput (cause : OsError)
  | unreadable (path : String) (cause : OsError)
  | noOutput (cause : OsError)
  | unwritable (path : String) (cause : OsError)
  /-- There is no room for a temporary file in the directory. -/
  | noTemporary (directory : String) (cause : OsError)
  | unfilled (cause : OsError)
  /-- The temporary file cannot have the permissions of the file it is to replace. -/
  | unpermitted (cause : OsError)
  | irreplaceable (path : String) (cause : OsError)
  deriving DecidableEq, Repr

namespace FileError

def summary : FileError → String
  | noInput _ => "failed to read standard input"
  | unreadable path _ => "failed to read input file " ++ path
  | noOutput _ => "failed to write standard output"
  | unwritable path _ => "failed to write output file " ++ path
  | noTemporary directory _ => "failed to create temporary file in " ++ directory
  | unfilled _ => "failed to write temporary output"
  | unpermitted _ => "failed to copy permissions to temporary output"
  | irreplaceable path _ => "failed to replace " ++ path

def cause : FileError → OsError
  | noInput cause | unreadable _ cause | noOutput cause | unwritable _ cause
  | noTemporary _ cause | unfilled cause | unpermitted cause | irreplaceable _ cause => cause

def message (e : FileError) : String :=
  e.summary ++ ": " ++ e.cause.message

end FileError

namespace SourceFile

def read (w : Workspace) (path : String) : Except FileError (List UInt8) :=
  (w.read path).mapError (.unreadable path)

def write (w : Workspace) (path : String) (data : List UInt8) : Except FileError Workspace :=
  (w.write path (.bytes data)).mapError (.unwritable path)

def directoryOf (path : String) : String :=
  match Path.parent? path with
  | some "" | none => "."
  | some up => up

/-- A step in the replacing of a file. What was done before it fails stays done. -/
def step (why : OsError → FileError) (act : Workspace → Except OsError Workspace) :
    ExceptT FileError (StateM Workspace) Unit := do
  match act (← get) with
  | .ok w => set w
  | .error e => throw (why e)

/-- Fills a temporary file, gives it permissions if some are wanted, and moves it to a path. -/
def finish (temporary : List String) (path : String) (data : List UInt8) (mode : Option Nat) :
    ExceptT FileError (StateM Workspace) Unit := do
  let directory := directoryOf path
  let filled (w : Workspace) : File := ⟨.bytes data, Workspace.temporaryMode, w.now⟩
  step .unfilled fun w =>
    w.call (.fillTemporary directory) (.ok (w.putFile temporary (filled w)))
  if let some mode := mode then
    step .unpermitted fun w =>
      w.call (.setMode directory) (.ok (w.putFile temporary { filled w with mode }))
  step (.irreplaceable path) fun w => w.move temporary path

/-- Replaces a file, by way of a temporary neighbour that takes over its permissions and then its
path. A neighbour that is not finished is taken away. -/
def exchange (w : Workspace) (path : String) (data : List UInt8) :
    Except FileError Unit × Workspace :=
  let directory := directoryOf path
  match w.createTemporary directory with
  | .error e => (.error (.noTemporary directory e), w)
  | .ok (temporary, opened) =>
    match (finish temporary path data (w.mode? path)).run.run opened with
    | (.error e, left) => (.error e, left.discard directory temporary)
    | (.ok (), w) => (.ok (), w)

def replace (w : Workspace) (path : String) (data : List UInt8) : Except FileError Workspace :=
  match exchange w path data with
  | (.error e, _) => .error e
  | (.ok (), w) => .ok w

end SourceFile

end UsingRemoval
