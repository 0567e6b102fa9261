/-!
JSON documents and their indented text: two blanks a level, one item a line, and nothing between
the brackets of an empty list or object.
-/

set_option autoImplicit false

namespace UsingRemoval

inductive Json where
  | number (n : Nat)
  | text (s : String)
  | array (items : List Json)
  | object (fields : List (String × Json))
  deriving Inhabited

namespace Json

def escape (c : Char) : List Char :=
  match c with
  | '"' => ['\\', '"']
  | '\\' => ['\\', '\\']
  | '\n' => ['\\', 'n']
  | '\r' => ['\\', 'r']
  | '\t' => ['\\', 't']
  | '\x08' => ['\\', 'b']
  | '\x0c' => ['\\', 'f']
  | _ =>
    if c.toNat < 0x20 then
      ['\\', 'u', '0', '0', Nat.digitChar (c.toNat / 16), Nat.digitChar (c.toNat % 16)]
    else [c]

def quote (s : String) : String :=
  String.ofList ('"' :: s.toList.flatMap escape ++ ['"'])

def lineStart (level : Nat) : String :=
  "\n" ++ String.ofList (List.replicate (2 * level) ' ')

mutual

/-- The text of a document whose first line is already begun at a level. -/
def renderAt (level : Nat) : Json → String
  | number n => toString n
  | text s => quote s
  | array [] => "[]"
  | array (item :: items) =>
    "[" ++ lineStart (level + 1) ++ renderAt (level + 1) item ++
      renderItems (level + 1) items ++ lineStart level ++ "]"
  | object [] => "\x7b\x7d"
  | object ((name, value) :: fields) =>
    "\x7b" ++ lineStart (level + 1) ++ quote name ++ ": " ++ renderAt (level + 1) value ++
      renderFields (level + 1) fields ++ lineStart level ++ "\x7d"

def renderItems (level : Nat) : List Json → String
  | [] => ""
  | item :: items =>
    "," ++ lineStart level ++ renderAt level item ++ renderItems level items

def renderFields (level : Nat) : List (String × Json) → String
  | [] => ""
  | (name, value) :: fields =>
    "," ++ lineStart level ++ quote name ++ ": " ++ renderAt level value ++
      renderFields level fields

end

def render (document : Json) : String :=
  renderAt 0 document

end Json

end UsingRemoval
