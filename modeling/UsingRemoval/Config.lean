import UsingRemoval.Environment
import UsingRemoval.NamespaceMap
import UsingRemoval.Text.Utf8
import UsingRemoval.Toml.Document
import UsingRemoval.Workspace

/-!
Configuration in layers: built-in settings, then the user's file, then the file of the work tree,
then the environment. A later layer wins where it says something, and is silent elsewhere.
-/

set_option autoImplicit false

namespace UsingRemoval

/-- Where a grammar is compiled from and where the result is kept. -/
structure GrammarSettings where
  source : Option String := none
  cache : Option String := none
  deriving DecidableEq, Repr

structure SymbolSettings where
  /-- Whether the built-in table is part of it, if the layer says so. -/
  builtin : Option Bool := none
  namespaces : NamespaceMap := Ordered.empty

structure Config where
  grammar : GrammarSettings := {}
  symbols : SymbolSettings := {}

/-- Where the grammar of a run comes from and where a compiled one is kept. -/
structure GrammarOptions where
  /-- Without a source the bundled grammar is used. -/
  source : Option String
  library : String
  deriving DecidableEq, Repr

inductive ConfigError where
  /-- There is no working directory to start from. -/
  | nowhere (cause : OsError)
  | unreadable (path : String) (cause : OsError)
  | notText (path : String)
  | malformed (path : String)
  deriving DecidableEq, Repr

def ConfigError.message : ConfigError → String
  | nowhere cause => cause.message
  | unreadable path cause => "failed to read config file: " ++ path ++ ": " ++ cause.message
  | notText path => "failed to read config file: " ++ path ++ ": stream did not contain valid UTF-8"
  | malformed path => "invalid config file: " ++ path ++ ": failed to parse TOML config"

/-! ### Settings from values -/

namespace Toml.Value

/-- The values of some fields. A table has them by name and an array in order; a date has none. -/
def fields? (names : List String) : Toml.Value → Option (List (Option Toml.Value))
  | .table entries => some (names.map fun name => entries.lookup name)
  | .array items => some ((List.range names.length).map fun i => items[i]?)
  | .date _ => some (names.map fun _ => none)
  | _ => none

def text? : Toml.Value → Option String
  | .text s => some s
  | _ => none

def boolean? : Toml.Value → Option Bool
  | .boolean b => some b
  | _ => none

/-- The key under which a date stands where a table of texts is expected. -/
def dateKey : String := "$__toml_private_datetime"

def texts? : Toml.Value → Option (List (String × String))
  | .table entries => entries.mapM fun e => e.2.text?.map fun text => (e.1, text)
  | .date written => some [(dateKey, written)]
  | _ => none

end Toml.Value

def readField {α : Type} (read : Toml.Value → Option α) : Option Toml.Value → Option (Option α)
  | none => some none
  | some v => (read v).map some

def GrammarSettings.ofValue? (v : Toml.Value) : Option GrammarSettings := do
  match ← v.fields? ["source", "cache"] with
  | [source, cache] =>
    return { source := ← readField Toml.Value.text? source
             cache := ← readField Toml.Value.text? cache }
  | _ => none

def SymbolSettings.ofValue? (v : Toml.Value) : Option SymbolSettings := do
  match ← v.fields? ["builtin", "namespaces"] with
  | [builtin, namespaces] =>
    return { builtin := ← readField Toml.Value.boolean? builtin
             namespaces := Ordered.ofList ((← readField Toml.Value.texts? namespaces).getD []) }
  | _ => none

namespace SymbolSettings

/-- Whether the built-in table is used; it is unless a layer says otherwise. -/
def usesBuiltin (s : SymbolSettings) : Bool :=
  s.builtin.getD true

/-- The fallback table: the built-in one, if used, with the configured names over it. -/
def fallback (s : SymbolSettings) : NamespaceMap :=
  (if s.usesBuiltin then NamespaceMap.standard else Ordered.empty).insertMany s.namespaces.toList

end SymbolSettings

namespace Config

def ofValue? (v : Toml.Value) : Option Config := do
  match ← v.fields? ["grammar", "symbols"] with
  | [grammar, symbols] =>
    return { grammar := (← readField GrammarSettings.ofValue? grammar).getD {}
             symbols := (← readField SymbolSettings.ofValue? symbols).getD {} }
  | _ => none

def ofText? (text : String) : Option Config :=
  (Toml.parse? text).bind ofValue?

def initial : Config :=
  { symbols := { builtin := some true } }

def merge (base layer : Config) : Config where
  grammar := {
    source := layer.grammar.source.or base.grammar.source
    cache := layer.grammar.cache.or base.grammar.cache }
  symbols := {
    builtin := layer.symbols.builtin.or base.symbols.builtin
    namespaces := base.symbols.namespaces.insertMany layer.symbols.namespaces.toList }

def ofEnvironment (e : Environment) : Config :=
  { grammar := { source := e.tsSource, cache := e.tsOut } }

def globalPath? (e : Environment) : Option String :=
  e.configDirectory?.map fun directory => Path.join directory "remusing/config.toml"

/-- The directory of the work tree: the nearest one, from the working directory up, that holds
`.git`, or else the working directory. -/
def workTree (w : Workspace) : String :=
  let here := w.directory
  ((Path.ancestors (here.length + 1) here).find? fun directory =>
    w.has (Path.join directory ".git")).getD here

def workspacePath (w : Workspace) : String :=
  Path.join (workTree w) ".remusing/config.toml"

def ofFile (w : Workspace) (path : String) : Except ConfigError Config :=
  match w.read path with
  | .error e => .error (.unreadable path e)
  | .ok data =>
    match Utf8.decode? data with
    | none => .error (.notText path)
    | some text =>
      match ofText? text with
      | none => .error (.malformed path)
      | some config => .ok config

/-- The layer in a file, which is empty if there is no such file. -/
def ofFileIfAny (w : Workspace) (path : Option String) : Except ConfigError Config :=
  match path.filter w.has with
  | none => .ok {}
  | some path => ofFile w path

def load (w : Workspace) (e : Environment) : Except ConfigError Config := do
  (w.call .currentDirectory (.ok ())).mapError .nowhere
  let global ← ofFileIfAny w (globalPath? e)
  let workspace ← ofFileIfAny w (some (workspacePath w))
  return ((initial.merge global).merge workspace).merge (ofEnvironment e)

def options (c : Config) (e : Environment) (source cache : Option String) : GrammarOptions where
  source := source.or c.grammar.source
  library := (cache.or c.grammar.cache).getD e.defaultLibrary

end Config

end UsingRemoval
