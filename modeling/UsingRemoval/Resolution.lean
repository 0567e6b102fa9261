import UsingRemoval.NamespaceMap
import UsingRemoval.Survey

/-!
What a source says about its bare names: where they occur, and which namespaces its own `using`
declarations give them.
-/

set_option autoImplicit false

namespace UsingRemoval

/-- The bare names of a source and the namespaces declared for names. -/
structure Resolution where
  unqualified : Occurrences
  declared : NamespaceMap

namespace Resolution

/-- The namespaces declared by `using a::b;`. Each declaration is looked up again in the tree; one
that is not found or has no scope adds nothing, and a later one replaces an earlier. -/
def declaredIn (captures : CaptureSet) (root : Node) (source : List UInt8) : NamespaceMap :=
  Ordered.ofList ((captures.group .usingQualType).filterMap fun c => do
    let (found, _) ← root.locate? c.span c.kind
    found.splitQualified? source)

def ofCaptures (captures : CaptureSet) (root : Node) (source : List UInt8) : Resolution where
  unqualified := captures.unqualified
  declared := declaredIn captures root source

/-- The namespace of a name: what the source declares, else what the fallback says. -/
def namespaceFor? (r : Resolution) (fallback : NamespaceMap) (name : String) : Option String :=
  (r.declared.get? name).or (fallback.get? name)

end Resolution

end UsingRemoval
