import UsingRemoval.Plan
import UsingRemoval.Text.Json

/-!
Plans as JSON documents, for tools that want to see the edits before they are made.
-/

set_option autoImplicit false

namespace UsingRemoval

def Span.fields (s : Span) : List (String × Json) :=
  [("start", .number s.start), ("end", .number s.stop)]

def Action.report : Action → Json
  | delete => .object [("action", .text "delete")]
  | qualify scope => .object [("action", .text "qualify"), ("namespace", .text scope)]
  | passThrough => .object [("action", .text "pass_through")]

def Edit.report (e : Edit) : Json :=
  .object (e.span.fields ++ [("kind", e.action.report)])

def Capture.report (c : Capture) : Json :=
  .object (c.span.fields ++
    [("kind", .text c.kind), ("text", .text c.text), ("tag", .text c.tag.name)])

def Plan.report (p : Plan) : Json :=
  .object [("edits", .array (p.edits.map Edit.report)),
    ("unresolved", .array (p.unresolved.map Capture.report))]

end UsingRemoval
