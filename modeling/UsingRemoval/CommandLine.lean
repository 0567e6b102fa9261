/-!
Reading a command line: flags, options with a value and positional values. Words are taken from
left to right. A value is examined when the next word that can be taken arrives, so a word that
cannot be taken is refused before a bad value right in front of it.
-/

set_option autoImplicit false

namespace UsingRemoval

inductive OptionKind where
  /-- Given once or not at all. -/
  | flag
  /-- May be repeated. -/
  | counter
  /-- Has a value, which may be empty. -/
  | text
  /-- Has a value, which is a path and not empty. -/
  | path
  | help
  | version
  deriving DecidableEq, Repr

structure OptionRule where
  name : String
  letter : Option Char
  kind : OptionKind
  deriving DecidableEq, Repr

/-- The options of a command and the names of its positional values, which are paths. -/
structure CommandRules where
  options : List OptionRule
  positionals : List String

inductive Refusal where
  /-- An option or a positional value that the command does not have. -/
  | unknownArgument
  /-- A value is missing, or empty where it may not be. -/
  | badValue
  /-- A value is attached to an option that has none. -/
  | unexpectedValue
  | repeated
  | unknownCommand
  | missingCommand
  | helpWanted
  | versionWanted
  deriving DecidableEq, Repr

namespace OptionKind

def takesValue : OptionKind → Bool
  | text | path => true
  | _ => false

end OptionKind

structure Reading where
  /-- Options and positional values by name, the latest first. -/
  given : List (String × String) := []
  /-- What has a value coming, or one that is not examined yet. -/
  pending : Option (String × OptionKind × Option String) := none
  /-- How many positional values were met. -/
  position : Nat := 0
  /-- Whether `--` was met, after which no word is an option. -/
  literal : Bool := false

namespace Reading

def value? (r : Reading) (name : String) : Option String :=
  r.given.lookup name

def has (r : Reading) (name : String) : Bool :=
  (r.value? name).isSome

def count (r : Reading) (name : String) : Nat :=
  r.given.countP fun g => g.1 == name

def accept (r : Reading) (name : String) (kind : OptionKind) (value : String) :
    Except Refusal Reading :=
  match kind with
  | .help => .error .helpWanted
  | .version => .error .versionWanted
  | .counter => .ok { r with given := (name, value) :: r.given }
  | _ =>
    if r.has name then .error .repeated
    else if kind = .path ∧ value = "" then .error .badValue
    else .ok { r with given := (name, value) :: r.given }

def settle (r : Reading) : Except Refusal Reading :=
  match r.pending with
  | none => .ok r
  | some (_, _, none) => .error .badValue
  | some (name, kind, some value) => { r with pending := none }.accept name kind value

end Reading

namespace CommandRules

/-- Takes an option with the value attached to it, if there is one. -/
def option (r : Reading) (o : OptionRule) (attached : Option String) :
    Except Refusal Reading := do
  let r ← r.settle
  match attached with
  | some value => r.accept o.name o.kind value
  | none =>
    if o.kind.takesValue then return { r with pending := some (o.name, o.kind, none) }
    else r.accept o.name o.kind ""

def long (rules : CommandRules) (r : Reading) (word : List Char) : Except Refusal Reading :=
  let name := String.ofList (word.takeWhile (· != '='))
  let attached := match word.dropWhile (· != '=') with
    | [] => none
    | _ :: value => some (String.ofList value)
  match rules.options.find? fun o => o.name == name with
  | none => .error .unknownArgument
  | some o =>
    if attached.isSome && !o.kind.takesValue then .error .unexpectedValue
    else option r o attached

/-- Takes letters behind one dash. The first that has a value takes the rest of the word as such,
with or without an equals sign. -/
def letters (rules : CommandRules) (r : Reading) : List Char → Except Refusal Reading
  | [] => .ok r
  | c :: rest =>
    match rules.options.find? fun o => o.letter == some c with
    | none => .error .unknownArgument
    | some o =>
      if o.kind.takesValue then
        option r o (match rest with
          | [] => none
          | '=' :: value => some (String.ofList value)
          | value => some (String.ofList value))
      else do rules.letters (← option r o none) rest

def positional (rules : CommandRules) (r : Reading) (word : String) : Except Refusal Reading :=
  match rules.positionals.drop r.position with
  | [] => .error .unknownArgument
  | name :: _ => do
    let r ← r.settle
    return { r with pending := some (name, .path, some word), position := r.position + 1 }

def word (rules : CommandRules) (r : Reading) (w : String) : Except Refusal Reading :=
  if r.literal then rules.positional r w
  else match w.toList with
    | ['-', '-'] => .ok { r with literal := true }
    | '-' :: '-' :: rest => rules.long r rest
    | '-' :: c :: rest => rules.letters r (c :: rest)
    | _ =>
      match r.pending with
      | some (name, kind, none) => .ok { r with pending := some (name, kind, some w) }
      | _ => rules.positional r w

def read (rules : CommandRules) (words : List String) : Except Refusal Reading := do
  (← words.foldlM rules.word {}).settle

end CommandRules

end UsingRemoval
