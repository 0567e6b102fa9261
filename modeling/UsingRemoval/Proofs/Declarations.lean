import UsingRemoval.Proofs.Imports

/-!
What is removed and what is remembered. A node of the kind `using_declaration` is a declaration of
one name, a directive, or neither, as with `using enum`. The kind alone does not tell them apart, but
the keyword does: a node that holds one is passed over as a whole when declarations are surveyed, with
the name in it. So only names of removed declarations are remembered.
-/

set_option autoImplicit false

namespace UsingRemoval

open Survey CaptureSet

theorem Survey.IsDeclaration.not_isDirective {d : Node} (declaration : IsDeclaration d) :
    ¬ IsDirective d := by
  rintro ⟨_, keyword, name, order, ⟨_, hkind⟩, _⟩
  have hkeyword : keyword ∈ d.children := order.mem List.mem_cons_self
  exact (declaration.2.2 keyword hkeyword).1 hkind

/-- Where an entry of the declared namespaces comes from: the name `q` of the declaration `d` is
looked up by its span and kind, and what is found is split into the entry. -/
structure Resolution.Origin (root : Node) (source : List UInt8) (name scope : String)
    (d q found : Node) : Prop where
  mem : d ∈ root.preorder
  declaration : IsDeclaration d
  child : q ∈ d.children
  qualified : q.Is "qualified_identifier"
  stop : q.span.stop ≠ 0
  located : ∃ up, root.locate? q.span q.kind = some (found, up)
  split : found.splitQualified? source = some (name, scope)

namespace Resolution.Origin

variable {root d q found : Node} {source : List UInt8} {name scope : String}

theorem same (origin : Origin root source name scope d q found) :
    found.span = q.span ∧ found.kind = q.kind := by
  obtain ⟨up, hlocate⟩ := origin.located
  exact (Node.locate?_eq_some hlocate).2

theorem below (origin : Origin root source name scope d q found) (laminar : root.Laminar)
    (nonempty : q.span.start < q.span.stop) : found ∈ q.preorder := by
  have hq := Node.mem_preorder_of_mem_children origin.mem origin.child
  obtain ⟨m, up, hm, hbelow, _⟩ := Node.locate?_of_mem laminar hq nonempty
  obtain ⟨up', hlocate⟩ := origin.located
  rw [hm] at hlocate
  cases hlocate
  exact hbelow

theorem declaration_collected (origin : Origin root source name scope d q found)
    (ends : d.span.stop ≠ 0 ∨ root.Laminar) :
    ∃ c ∈ (collect root source).group .usingDecl, c.span = d.span := by
  have hstop : d.span.stop ≠ 0 := by
    rcases ends with hstop | laminar
    · exact hstop
    · have hwithin := (laminar.nested d origin.mem q origin.child).2
      have hq := origin.stop
      omega
  exact exists_mem_group_iff.2
    ⟨d, origin.mem, d, exists_notes_usingDecl.2 ⟨hstop, rfl, origin.declaration⟩, rfl⟩

end Resolution.Origin

theorem Resolution.exists_origin {root : Node} {source : List UInt8} {name scope : String}
    (declared : (Resolution.ofTree root source).declared.get? name = some scope) :
    ∃ d q found, Origin root source name scope d q found := by
  obtain ⟨found, ⟨q, ⟨hstop, qualified, d, hd, declaration, hq⟩, located⟩, hsplit⟩ :=
    found_of_declared declared
  exact ⟨d, q, found, hd, declaration, hq, qualified, hstop, located, hsplit⟩

theorem Plan.removable_of_delete {root : Node} {source : List UInt8} {fallback : NamespaceMap}
    {plan : Plan} (planned : make (collect root source) (.ofTree root source) fallback = .ok plan)
    {e : Edit} (he : e ∈ plan.edits) (delete : e.action = .delete) :
    ∃ d, Removable root d ∧ d.span = e.span := by
  rw [edits_of_make_ofTree planned] at he
  rcases mem_editsFor.1 he with ⟨m, _, rfl⟩ | ⟨_, d, removable, rfl⟩
  · -- the edit of a bare name qualifies it or lets it through
    unfold editOf at delete
    split at delete <;> cases delete
  · exact ⟨d, removable, rfl⟩

/-- The captures of declarations, directives and imported names have exactly the spans of the nodes
of these shapes, and no node is both a declaration and a directive. Every declared namespace comes
from the name of a captured declaration, and a plan deletes declarations and directives only. -/
theorem Plan.deletions_exactly (root : Node) (source : List UInt8) (fallback : NamespaceMap) :
    let set := collect root source
    let resolution := Resolution.ofTree root source
    (∀ span, (∃ c ∈ set.group .usingDecl, c.span = span) ↔
      ∃ d ∈ root.preorder, d.span.stop ≠ 0 ∧ IsDeclaration d ∧ d.span = span) ∧
    (∀ span, (∃ c ∈ set.group .usingNsDecl, c.span = span) ↔
      ∃ d ∈ root.preorder, d.span.stop ≠ 0 ∧ IsDirective d ∧ d.span = span) ∧
    (∀ d, ¬ (IsDeclaration d ∧ IsDirective d)) ∧
    (∀ span, (∃ c ∈ set.group .usingQualType, c.span = span) ↔
      ∃ q, q.span.stop ≠ 0 ∧ q.Is "qualified_identifier" ∧
        (∃ d ∈ root.preorder, IsDeclaration d ∧ q ∈ d.children) ∧ q.span = span) ∧
    (∀ name scope, resolution.declared.get? name = some scope →
      ∃ d q found, Resolution.Origin root source name scope d q found ∧
        (found.span = q.span ∧ found.kind = q.kind) ∧
        (root.Laminar → q.span.start < q.span.stop → found ∈ q.preorder) ∧
        (d.span.stop ≠ 0 ∨ root.Laminar → ∃ c ∈ set.group .usingDecl, c.span = d.span)) ∧
    ∀ plan, make set resolution fallback = .ok plan →
      ∀ e ∈ plan.edits, e.action = .delete → ∃ d, Removable root d ∧ d.span = e.span := by
  intro set resolution
  refine ⟨fun span => ?_, fun span => ?_, ?_, fun span => ?_, ?_, ?_⟩
  · simp only [set, exists_mem_group_iff, exists_notes_usingDecl]
    grind
  · simp only [set, exists_mem_group_iff, exists_notes_usingNsDecl]
    grind
  · rintro d ⟨declaration, directive⟩
    exact declaration.not_isDirective directive
  · simp only [set, exists_mem_group_iff, exists_notes_usingQualType]
    grind
  · intro name scope declared
    obtain ⟨d, q, found, origin⟩ := Resolution.exists_origin declared
    exact ⟨d, q, found, origin, origin.same, origin.below, origin.declaration_collected⟩
  · intro plan planned e he delete
    exact removable_of_delete planned he delete

end UsingRemoval
