import UsingRemoval.Edit
import UsingRemoval.Resolution

/-!
Plans: the edits that remove the `using` declarations of a source and qualify its bare names.
A plan lists its edits in span order and without overlap, or there is none.
-/

set_option autoImplicit false

namespace UsingRemoval

inductive RemovalError where
  | noTree
  /-- The grammar does not know a shape that is looked for. -/
  | unknownShape (cause : String)
  | unexpectedNode (kind : String) (tag : Tag) (start : Nat)
  /-- Two planned edits touch the same bytes. -/
  | overlappingEdits (first second : Span)
  | outsideSource
  deriving DecidableEq, Repr

def RemovalError.message : RemovalError → String
  | noTree => "parser could not produce a syntax tree"
  | unknownShape cause => "capture query failed to compile: " ++ cause
  | unexpectedNode kind tag start =>
    "unexpected `" ++ kind ++ "` node captured as `" ++ tag.name ++ "` at byte " ++ toString start
  | overlappingEdits first second =>
    "planned edits overlap: " ++ first.describe ++ " and " ++ second.describe
  | outsideSource => "an edit reaches outside the source"

/-- Edits in span order and the bare names that nothing qualifies. -/
structure Plan where
  edits : List Edit
  unresolved : List Capture
  deriving DecidableEq

namespace Plan

def changes (p : Plan) : Nat :=
  p.edits.countP Edit.isChange

def nameKinds : List String := ["type_identifier", "identifier"]

def declarationKinds : List String := ["using_declaration"]

/-- Refuses the first capture whose kind is not among `kinds`. -/
def expectKinds (kinds : List String) (captures : List Capture) : Except RemovalError Unit :=
  match captures.find? fun c => !kinds.contains c.kind with
  | some c => .error (.unexpectedNode c.kind c.tag c.span.start)
  | none => .ok ()

/-- Refuses the first two neighbours of which one ends after the next begins. -/
def checkDisjoint : List Edit → Except RemovalError Unit
  | first :: second :: rest =>
    if second.span.start < first.span.stop then
      .error (.overlappingEdits first.span second.span)
    else checkDisjoint (second :: rest)
  | _ => .ok ()

def qualification (resolution : Resolution) (fallback : NamespaceMap) (c : Capture) : Edit :=
  match resolution.namespaceFor? fallback c.text with
  | some scope => ⟨c.span, .qualify scope⟩
  | none => ⟨c.span, .passThrough⟩

def deletions (captures : CaptureSet) : List Capture :=
  captures.group .usingDecl ++ captures.group .usingNsDecl

def deletion (c : Capture) : Edit := ⟨c.span, .delete⟩

/-- All edits in span order; the first to claim a span keeps it. -/
def allEdits (captures : CaptureSet) (resolution : Resolution) (fallback : NamespaceMap) :
    Ordered Edit.span :=
  (resolution.unqualified.toList.map (qualification resolution fallback) ++
    (deletions captures).map deletion).foldl Ordered.insertNew Ordered.empty

/-- The plan for a source, if all captures have the expected kinds and no edits overlap. -/
def make (captures : CaptureSet) (resolution : Resolution) (fallback : NamespaceMap) :
    Except RemovalError Plan := do
  expectKinds nameKinds resolution.unqualified.toList
  expectKinds declarationKinds (deletions captures)
  let edits := (allEdits captures resolution fallback).toList
  checkDisjoint edits
  return {
    edits
    unresolved := resolution.unqualified.toList.filter fun c =>
      (resolution.namespaceFor? fallback c.text).isNone }

end Plan

end UsingRemoval
