import UsingRemoval.Plan

/-!
Sessions work on one source step by step. Each step runs the steps before it as needed and keeps
its result, so a step taken again costs nothing and answers the same.
-/

set_option autoImplicit false

namespace UsingRemoval

abbrev Parser := List UInt8 → Option Node

/-- A source with the results kept so far. -/
structure Session where
  parser : Parser
  /-- What the grammar objects to in the shapes that are looked for, if it does. -/
  objection : Option String := none
  source : List UInt8
  fallback : NamespaceMap
  tree : Option Node := none
  captures : Option CaptureSet := none
  resolution : Option Resolution := none
  plan : Option Plan := none
  output : Option (List UInt8) := none

inductive Stage where
  | notStarted
  | parsed
  | queried
  | resolved
  | fixed
  deriving DecidableEq, Repr, Inhabited

namespace Session

/-- A step that may fail and may keep results in the session either way. -/
abbrev Step (α : Type) := ExceptT RemovalError (StateM Session) α

def start (parser : Parser) (source : List UInt8) (fallback : NamespaceMap)
    (objection : Option String := none) : Session :=
  { parser, source, fallback, objection }

def stage (s : Session) : Stage :=
  if s.output.isSome then .fixed
  else if s.resolution.isSome then .resolved
  else if s.captures.isSome then .queried
  else if s.tree.isSome then .parsed
  else .notStarted

/-- Changes the fallback table and drops what was made from the old one. -/
def setFallback (s : Session) (fallback : NamespaceMap) : Session :=
  { s with fallback, plan := none, output := none }

def parse : Step Node := do
  let s ← get
  if let some tree := s.tree then return tree
  match s.parser s.source with
  | none => throw .noTree
  | some tree =>
    modify fun s => { s with tree := some tree }
    return tree

def query : Step CaptureSet := do
  if let some captures := (← get).captures then return captures
  let tree ← parse
  if let some cause := (← get).objection then throw (.unknownShape cause)
  let captures := CaptureSet.collect tree (← get).source
  modify fun s => { s with captures := some captures }
  return captures

def resolve : Step Resolution := do
  if let some resolution := (← get).resolution then return resolution
  let captures ← query
  let tree ← parse
  let resolution := Resolution.ofCaptures captures tree (← get).source
  modify fun s => { s with resolution := some resolution }
  return resolution

def makePlan : Step Plan := do
  if let some plan := (← get).plan then return plan
  let resolution ← resolve
  let captures ← query
  match Plan.make captures resolution (← get).fallback with
  | .error e => throw e
  | .ok plan =>
    modify fun s => { s with plan := some plan }
    return plan

def fix : Step (List UInt8) := do
  if let some output := (← get).output then return output
  let plan ← makePlan
  match Edit.applyAll (← get).source plan.edits with
  | none => throw .outsideSource
  | some output =>
    modify fun s => { s with output := some output }
    return output

/-- Takes a step: its answer and the session after it. -/
def take {α : Type} (s : Session) (step : Step α) : Except RemovalError α × Session :=
  step.run.run s

end Session

/-- The source without its `using` declarations, qualified from them and from a fallback table. -/
def removeUsings (parser : Parser) (fallback : NamespaceMap) (source : List UInt8) :
    Except RemovalError (List UInt8) :=
  ((Session.start parser source fallback).take Session.fix).1

end UsingRemoval
