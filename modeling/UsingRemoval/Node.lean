import UsingRemoval.Span
import UsingRemoval.Text.Utf8

/-!
Syntax trees. A node has a label and an ordered list of children; a parent holds each child under
an optional field name, which stands in the child's label. Trees are read from their nodes in
preorder, each with its number of children.
-/

set_option autoImplicit false

namespace UsingRemoval

structure Label where
  kind : String
  /-- False for literal tokens such as `using` or `::`, whose kind is the token. -/
  named : Bool
  /-- Inserted by error recovery, with an empty span. -/
  missing : Bool
  /-- May stand anywhere, as comments do. -/
  extra : Bool
  /-- Stands for source that fits no rule. -/
  error : Bool
  /-- The field under which the parent holds the node. -/
  field : Option String
  span : Span
  deriving DecidableEq, Repr, Inhabited

/-- A node of a syntax tree with all that is below it. -/
inductive Node where
  | mk (label : Label) (children : List Node)
  deriving Inhabited

namespace Node

def label : Node → Label
  | mk label _ => label

def children : Node → List Node
  | mk _ children => children

def kind (n : Node) : String := n.label.kind

def span (n : Node) : Span := n.label.span

/-- The field of the parent that holds the node. -/
def field (n : Node) : Option String := n.label.field

/-- The text under a node; bytes that are no text become U+FFFD. -/
def text (n : Node) (source : List UInt8) : String :=
  Utf8.decodeLossy (n.span.slice source)

mutual

/-- The node and all nodes below it, parents before children, in source order. -/
def preorder : Node → List Node
  | mk label children => mk label children :: preorderAll children

def preorderAll : List Node → List Node
  | [] => []
  | n :: ns => preorder n ++ preorderAll ns

end

def hasError (n : Node) : Bool :=
  n.preorder.any fun m => m.label.error || m.label.missing

def child? (n : Node) (name : String) : Option Node :=
  n.children.find? fun c => c.field == some name

/-- Puts a node before the trees that follow it; the first `count` of them become its children. -/
def adopt (entry : Label × Nat) (following : List Node) : Option (List Node) :=
  if entry.2 ≤ following.length then
    some (mk entry.1 (following.take entry.2) :: following.drop entry.2)
  else none

/-- The tree whose nodes, with their numbers of children, are listed in preorder. -/
def ofPreorder? (entries : List (Label × Nat)) : Option Node :=
  match entries.foldrM adopt [] with
  | some [root] => some root
  | _ => none

/-! ### Finding a node again -/

/-- Whether the search for bytes `wanted` passes over a child. -/
def skips (wanted : Span) (c : Node) : Bool :=
  c.span.stop < wanted.stop ||
    (if c.span.start = c.span.stop then c.span.stop < wanted.start
      else c.span.stop ≤ wanted.start)

mutual

/-- The deepest node found around `wanted`, followed by its ancestors up to `above`. -/
def descend (wanted : Span) (above : List Node) : Node → List Node
  | mk label children =>
    descendAmong wanted (mk label children :: above) children

/-- Goes on below the first child that is not passed over, if it begins early enough. -/
def descendAmong (wanted : Span) (path : List Node) : List Node → List Node
  | [] => path
  | c :: cs =>
    if skips wanted c then descendAmong wanted path cs
    else if wanted.start < c.span.start then path
    else descend wanted path c

end

/-- Climbs from the first node of a path, through ancestors that have exactly the span, to one of
the given kind. -/
def climb (wanted : Span) (kind : String) : List Node → Option (Node × List Node)
  | [] => none
  | n :: up =>
    if n.kind = kind ∧ n.span = wanted then some (n, up)
    else match up with
      | [] => none
      | parent :: _ => if parent.span = wanted then climb wanted kind up else none

/-- The node of the given span and kind, deepest first, with its ancestors from near to far. -/
def locate? (root : Node) (wanted : Span) (kind : String) : Option (Node × List Node) :=
  climb wanted kind (root.descend wanted [])

/-! ### Qualified names -/

mutual

/-- The levels of a qualified name from the outside in, each a scope and what it scopes. -/
def levels : Node → List (Node × Node)
  | mk _ children =>
    match children.find? fun c => c.field == some "scope" with
    | none => []
    | some scope => levelsUnder scope children

/-- The level of `scope` with the first child that is a name, and the levels inside that name. -/
def levelsUnder (scope : Node) : List Node → List (Node × Node)
  | [] => []
  | c :: cs =>
    if c.field == some "name" then (scope, c) :: levels c else levelsUnder scope cs

end

/-- The innermost name of a qualified name and its qualifier: `c` and `a::b` for `a::b::c`. -/
def splitQualified? (n : Node) (source : List UInt8) : Option (String × String) :=
  n.levels.getLast?.map fun innermost =>
    (innermost.2.text source, "::".intercalate (n.levels.map fun level => level.1.text source))

end Node

end UsingRemoval
