import UsingRemoval.CaptureSet
import UsingRemoval.Pattern

/-!
The shapes that the removal of `using` declarations looks for, and the captures they give on a
tree.
-/

set_option autoImplicit false

namespace UsingRemoval

structure Survey where
  patterns : List Pattern
  /-- A node with a direct child of one of these kinds is passed over. -/
  exceptWith : List String := []
  /-- Written within a line, in parentheses, and not as a block. -/
  inline : Bool := false

namespace Survey

open Pattern

def allTypes : Survey where
  patterns := [tagged (node "type_identifier" []) .type]
  inline := true

/-- `ns::Type`, and each level of `a::b::Type`. -/
def qualifiedTypes : Survey where
  patterns := [
    node "qualified_identifier" [
      field "scope" (tagged (node "namespace_identifier" []) .typeScope),
      field "name" (tagged (node "type_identifier" []) .typeQual)]]

def qualifiedTemplateTypes : Survey where
  patterns := [
    node "qualified_identifier" [
      field "scope" (tagged (node "namespace_identifier" []) .typeScopeTemplate),
      field "name" (node "template_type" [
        field "name" (tagged (node "type_identifier" []) .typeQualTemplate)])],
    node "qualified_identifier" [
      field "scope" (tagged (node "namespace_identifier" []) .typeScopeTemplate),
      field "name" (node "qualified_identifier" [
        field "scope" (node "template_type" [
          field "name" (tagged (node "type_identifier" []) .typeQualTemplate)]),
        field "name" (tagged (node "type_identifier" []) .typeQualTemplate)])]]

def streamOperator : Pattern :=
  field "operator" (oneOf [token "<<", token ">>"])

def streamSymbols : Survey where
  patterns := [
    node "binary_expression" [
      streamOperator,
      field "right" (tagged (node "identifier" []) .symbol)],
    node "binary_expression" [
      field "left" (tagged (node "identifier" []) .symbol),
      streamOperator]]

def functionSymbols : Survey where
  patterns := [
    node "call_expression" [
      field "function" (node "template_function" [
        field "name" (tagged (node "identifier" []) .func)])],
    node "call_expression" [
      field "function" (tagged (node "identifier" []) .func)]]

/-- `using a::b;`. Namespace directives and `using enum a::E;` have the same shape and a keyword
that tells them apart. -/
def usingDeclarations : Survey where
  patterns := [
    tagged (node "using_declaration" [
      tagged (node "qualified_identifier" []) .usingQualType]) .usingDecl]
  exceptWith := ["namespace", "enum"]

/-- `using namespace a;` and `using namespace a::b;`. -/
def usingNamespaces : Survey where
  patterns := [
    tagged (node "using_declaration" [
      token "namespace",
      tagged (oneOf [node "identifier" [], node "qualified_identifier" []]) .usingId])
      .usingNsDecl]

def all : List Survey :=
  [allTypes, qualifiedTypes, qualifiedTemplateTypes, streamSymbols, functionSymbols,
    usingDeclarations, usingNamespaces]

def margin : Nat := 8

def text (s : Survey) : String :=
  let written := s.patterns.map (Pattern.render margin)
  let indent := "\n" ++ "".pushn ' ' margin
  if s.inline then "(" ++ " ".intercalate written ++ ")"
  else indent ++ ("\n" ++ indent).intercalate written ++ indent

def allText : String :=
  "\n".intercalate (all.map text)

def matchesAt (s : Survey) (n : Node) : List Match :=
  if n.children.any fun c => s.exceptWith.contains c.kind then []
  else s.patterns.flatMap fun p => p.matchesAt n

def notes (root : Node) : List (Tag × Node) :=
  root.preorder.flatMap fun n => all.flatMap fun s => (s.matchesAt n).flatten

end Survey

def Capture.ofNode (source : List UInt8) (tag : Tag) (n : Node) : Capture :=
  ⟨n.span, n.kind, n.text source, tag⟩

def CaptureSet.collect (root : Node) (source : List UInt8) : CaptureSet :=
  CaptureSet.ofList ((Survey.notes root).map fun note => Capture.ofNode source note.1 note.2)

end UsingRemoval
