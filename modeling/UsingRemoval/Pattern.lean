import UsingRemoval.Capture
import UsingRemoval.Node

/-!
Patterns over syntax trees. A pattern describes a node and some of its direct children; other
children may stand before, between and after those. Patterns have a written form, in which nested
children stand on lines of their own.
-/

set_option autoImplicit false

namespace UsingRemoval

inductive Pattern where
  /-- A named node of this kind with such children in this order. -/
  | node (kind : String) (children : List Pattern)
  | token (text : String)
  | oneOf (choices : List Pattern)
  /-- A node that its parent holds under a field. -/
  | field (name : String) (inner : Pattern)
  /-- A node to be noted under a tag. -/
  | tagged (inner : Pattern) (tag : Tag)

/-- The nodes noted by one match, each with its tag. -/
abbrev Match := List (Tag × Node)

namespace Pattern

def picks {α : Type} : List α → List (α × List α)
  | [] => []
  | a :: as => (a, as) :: picks as

mutual

/-- The ways in which a pattern matches a node. A node that ends at offset zero is not noted. -/
def matchesAt : Pattern → Node → List Match
  | node kind children, n =>
    if n.label.named && n.kind == kind then matchesAmong children n.children else []
  | token text, n => if !n.label.named && n.kind == text then [[]] else []
  | oneOf choices, n => matchesOneOf choices n
  | field name inner, n => if n.field == some name then inner.matchesAt n else []
  | tagged inner tag, n =>
    (inner.matchesAt n).map fun m => if n.span.stop = 0 then m else (tag, n) :: m

/-- The ways in which some pattern of a list matches a node. -/
def matchesOneOf : List Pattern → Node → List Match
  | [], _ => []
  | p :: ps, n => p.matchesAt n ++ matchesOneOf ps n

/-- The ways to match the patterns of a list, in order, with some of the nodes. -/
def matchesAmong : List Pattern → List Node → List Match
  | [], _ => [[]]
  | p :: ps, ns => (picks ns).flatMap fun pick =>
    (p.matchesAt pick.1).flatMap fun m => (matchesAmong ps pick.2).map (m ++ ·)

end

mutual

/-- The written form of a pattern that begins `depth` columns from the left. -/
def render (depth : Nat) : Pattern → String
  | node kind children => "(" ++ kind ++ renderChildren (depth + 2) children ++ ")"
  | token text => "\"" ++ text ++ "\""
  | oneOf choices => "[" ++ " ".intercalate (renderAll depth choices) ++ "]"
  | field name inner => name ++ ": " ++ inner.render depth
  | tagged inner tag => inner.render depth ++ " @" ++ tag.name

def renderAll (depth : Nat) : List Pattern → List String
  | [] => []
  | p :: ps => p.render depth :: renderAll depth ps

/-- The written forms of patterns, each on a line of its own. -/
def renderChildren (depth : Nat) : List Pattern → String
  | [] => ""
  | p :: ps => "\n" ++ "".pushn ' ' depth ++ p.render depth ++ renderChildren depth ps

end

end Pattern

end UsingRemoval
