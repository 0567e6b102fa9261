import UsingRemoval.Span
import UsingRemoval.Text.Utf8

/-!
Edits of a source, and the source they leave. Applying reads the source once from left to right:
what lies between two edits is copied, and an edit says what becomes of its own span.
-/

set_option autoImplicit false

namespace UsingRemoval

inductive Action where
  /-- The span goes, with the line breaks right after it. -/
  | delete
  /-- The span gets a namespace and `::` in front. -/
  | qualify (scope : String)
  /-- The span stays as it is. -/
  | passThrough
  deriving DecidableEq, Repr, Inhabited

structure Edit where
  span : Span
  action : Action
  deriving DecidableEq, Repr, Inhabited

namespace Edit

def isChange (e : Edit) : Bool :=
  e.action != .passThrough

def isLineBreak (b : UInt8) : Bool :=
  b == 0x0A || b == 0x0D

def lineBreaksAt (source : List UInt8) (offset : Nat) : Nat :=
  ((source.drop offset).takeWhile isLineBreak).length

/-- What stands in place of the covered bytes. -/
def body (e : Edit) (covered : List UInt8) : List UInt8 :=
  match e.action with
  | .delete => []
  | .qualify scope => Utf8.encode scope ++ Utf8.encode "::" ++ covered
  | .passThrough => covered

/-- Where copying goes on after the edit. -/
def resume (e : Edit) (source : List UInt8) : Nat :=
  match e.action with
  | .delete => e.span.stop + lineBreaksAt source e.span.stop
  | _ => e.span.stop

/-- The output from offset `cursor` on. The bytes before an edit are copied if it begins later;
`none` means that a span to be copied or edited is not within the source. -/
def applyFrom (source : List UInt8) (cursor : Nat) : List Edit → Option (List UInt8)
  | [] => some (source.drop cursor)
  | e :: es => do
    let gap ← if cursor < e.span.start then Span.slice? ⟨cursor, e.span.start⟩ source else some []
    let covered ← e.span.slice? source
    let rest ← applyFrom source (e.resume source) es
    return gap ++ e.body covered ++ rest

/-- The source after its edits, taken in the order of the list. -/
def applyAll (source : List UInt8) (edits : List Edit) : Option (List UInt8) :=
  applyFrom source 0 edits

end Edit

end UsingRemoval
