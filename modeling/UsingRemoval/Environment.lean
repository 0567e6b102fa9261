import UsingRemoval.Path

/-!
The environment variables a run looks at, its account, and the places they name.
-/

set_option autoImplicit false

namespace UsingRemoval

structure Environment where
  home : Option String := none
  /-- The home directory that is on record for the account. -/
  accountHome : Option String := none
  configHome : Option String := none
  tsSource : Option String := none
  tsOut : Option String := none
  tmpDir : Option String := none
  deriving DecidableEq, Repr

namespace Environment

/-- The home directory, which is that of the account if the variable names none. -/
def homeDirectory? (e : Environment) : Option String :=
  (e.home.filter (· != "")).or e.accountHome

/-- The directory of the user's configuration files: the one named for them if its path is
absolute, else one in the home directory. -/
def configDirectory? (e : Environment) : Option String :=
  match e.configHome.filter Path.isAbsolute with
  | some path => some path
  | none => e.homeDirectory?.map fun home => Path.join home ".config"

def temporaryDirectory (e : Environment) : String :=
  e.tmpDir.getD "/tmp"

def defaultLibrary (e : Environment) : String :=
  Path.join e.temporaryDirectory "ts_cpp_language.so"

end Environment

end UsingRemoval
