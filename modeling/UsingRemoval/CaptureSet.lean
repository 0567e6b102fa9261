import UsingRemoval.Capture
import UsingRemoval.Ordered

/-!
Sets of captures, filed by tag and span. The first capture filed in a slot stays.
-/

set_option autoImplicit false

namespace UsingRemoval

/-- Captures ordered by tag and span, at most one to a slot. -/
abbrev CaptureSet := Ordered Capture.slot

/-- Captures ordered by span, at most one to a span. -/
abbrev Occurrences := Ordered Capture.span

namespace CaptureSet

/-- Files a capture unless its slot is taken, and says whether it did. -/
def add (set : CaptureSet) (c : Capture) : Bool × CaptureSet :=
  (!set.contains c.slot, set.insertNew c)

/-- Files captures one after another, the first of each slot. -/
def ofList (captures : List Capture) : CaptureSet :=
  captures.foldl Ordered.insertNew Ordered.empty

def group (set : CaptureSet) (tag : Tag) : List Capture :=
  set.toList.filter fun c => c.tag == tag

def count (set : CaptureSet) (tag : Tag) : Nat :=
  (set.group tag).length

/-- The captures of names written without a namespace: types that no qualified shape covers, called
names and names beside stream operators. -/
def candidates (set : CaptureSet) : List Capture :=
  let qualified := (set.group .typeQual ++ set.group .typeQualTemplate).map Capture.span
  (set.group .type).filter (fun c => !qualified.contains c.span) ++ set.group .func ++
    set.group .symbol

/-- The names written without a namespace, one to a span. Where several tags hold a span, the last
of the candidates stays. -/
def unqualified (set : CaptureSet) : Occurrences :=
  Ordered.ofList set.candidates

end CaptureSet

end UsingRemoval
