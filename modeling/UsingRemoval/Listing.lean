import UsingRemoval.Node

/-!
Syntax trees as text: one line a node, parents before children, with blanks between the parts.
A line has a number that tells named nodes (1), missing ones (2), extra ones (4) and errors (8),
the start, the end, the number of children, the field or `-`, and the kind. In the kind a line end
is written `\n` and a backslash twice.
-/

set_option autoImplicit false

namespace UsingRemoval.Listing

def unescape : List Char → List Char
  | '\\' :: 'n' :: rest => '\n' :: unescape rest
  | '\\' :: '\\' :: rest => '\\' :: unescape rest
  | c :: rest => c :: unescape rest
  | [] => []

def entry? (line : String) : Option (Label × Nat) :=
  match (line.toList.splitOn ' ').map String.ofList with
  | flags :: start :: stop :: count :: field :: first :: rest => do
    let flags ← flags.toNat?
    let kind := String.ofList (unescape (" ".intercalate (first :: rest)).toList)
    let span := ⟨← start.toNat?, ← stop.toNat?⟩
    let label := {
      kind
      named := flags.testBit 0
      missing := flags.testBit 1
      extra := flags.testBit 2
      error := flags.testBit 3
      field := if field = "-" then none else some field
      span }
    return (label, ← count.toNat?)
  | _ => none

def parse? (text : String) : Option Node := do
  let lines := ((text.toList.splitOn '\n').map String.ofList).filter (· != "")
  Node.ofPreorder? (← lines.mapM entry?)

end UsingRemoval.Listing
