import UsingRemoval.Proofs.Planning

/-!
When planning fails. Bare names are apart from each other, and so are the declarations; but a bare
name may stand within a declaration that goes, and nothing takes it off the list of edits. Planning
fails exactly on such a name.
-/

set_option autoImplicit false

namespace UsingRemoval

open Survey

namespace Node

/-- The spans differ and share a place. -/
def Overlaps (m n : Node) : Prop :=
  m.span ≠ n.span ∧ m.span.start < n.span.stop ∧ n.span.start < m.span.stop

theorem Overlaps.symm {m n : Node} (h : m.Overlaps n) : n.Overlaps m :=
  ⟨h.1.symm, h.2.2, h.2.1⟩

end Node

section

variable {root : Node} {source : List UInt8} {fallback : NamespaceMap}

theorem Plan.checkDisjoint_editsFor_iff (wf : root.WellFormed source) (fallback : NamespaceMap) :
    checkDisjoint (editsFor root source fallback).toList = .ok () ↔
      ∀ m n, Edited root m → Edited root n → ¬ m.Overlaps n := by
  have forward : ∀ e ∈ (editsFor root source fallback).toList, e.span.start ≤ e.span.stop := by
    intro e he
    obtain ⟨n, edited, hspan⟩ := exists_span_editsFor_iff.1 ⟨e, he, rfl⟩
    rw [← hspan]
    exact wf.forward n edited.mem_preorder
  rw [checkDisjoint_ok_iff,
    isChain_before_iff_apart (editsFor root source fallback).sorted forward]
  constructor
  · rintro apart m n hm hn ⟨hne, hmn, hnm⟩
    obtain ⟨a, ha, hspan⟩ : ∃ e ∈ (editsFor root source fallback).toList, e.span = m.span :=
      exists_span_editsFor_iff.2 ⟨m, hm, rfl⟩
    obtain ⟨b, hb, hspan'⟩ : ∃ e ∈ (editsFor root source fallback).toList, e.span = n.span :=
      exists_span_editsFor_iff.2 ⟨n, hn, rfl⟩
    rcases apart a ha b hb (by rwa [hspan, hspan']) with h | h
    all_goals
      rw [Edit.Before, hspan, hspan'] at h
      omega
  · intro clear a ha b hb hne
    obtain ⟨m, hm, hspan⟩ := exists_span_editsFor_iff.1 ⟨a, ha, rfl⟩
    obtain ⟨n, hn, hspan'⟩ := exists_span_editsFor_iff.1 ⟨b, hb, rfl⟩
    have hclear := clear m n hm hn
    rw [Node.Overlaps, hspan, hspan'] at hclear
    simp only [Edit.Before]
    by_contra h
    exact hclear ⟨hne, by omega, by omega⟩

theorem Plan.make_ofTree_eq_error_iff (wf : root.WellFormed source) :
    (∃ first second, make (.collect root source) (.ofTree root source) fallback =
      .error (.overlappingEdits first second)) ↔
    ∃ m n, Edited root m ∧ Edited root n ∧ m.Overlaps n := by
  have hclear := checkDisjoint_editsFor_iff wf fallback
  rw [make_ofTree]
  constructor
  · rintro ⟨first, second, herror⟩
    by_contra hnone
    have hok := hclear.2 fun m n hm hn overlaps => hnone ⟨m, n, hm, hn, overlaps⟩
    rw [hok] at herror
    cases herror
  · rintro ⟨m, n, hm, hn, overlaps⟩
    have hne : checkDisjoint (editsFor root source fallback).toList ≠ .ok () := by
      intro hok
      exact hclear.1 hok m n hm hn overlaps
    obtain ⟨first, second, herror⟩ := checkDisjoint_ne_ok hne
    exact ⟨first, second, by rw [herror]; rfl⟩

/-- Where names are leaves and no removable node is below another, only a name within a removable
node overlaps anything. -/
theorem bare_below_of_overlaps
    (leaves : ∀ n ∈ root.preorder, n.kind = "identifier" ∨ n.kind = "type_identifier" →
      n.children = [])
    (unnested : ∀ d d', Removable root d → Removable root d' → d' ∈ d.preorder → d'.span = d.span)
    {m n : Node} (hm : Edited root m) (hn : Edited root n) (overlaps : m.Overlaps n)
    (below : m ∈ n.preorder) : Bare root m ∧ Removable root n := by
  rcases hn with bare | removable
  · -- nothing else is in the tree of a name
    have leaf := leaves n bare.mem_preorder bare.kind.symm
    have hmn : m = n := Node.eq_of_mem_preorder_leaf leaf below
    exact absurd (congrArg Node.span hmn) overlaps.1
  · rcases hm with bare | removable'
    · exact ⟨bare, removable⟩
    · exact absurd (unnested n m removable removable' below) overlaps.1

theorem bare_within_of_overlaps
    (leaves : ∀ n ∈ root.preorder, n.kind = "identifier" ∨ n.kind = "type_identifier" →
      n.children = [])
    (unnested : ∀ d ∈ root.preorder, d.kind = "using_declaration" →
      ∀ c ∈ d.children, ∀ n ∈ c.preorder, n.kind ≠ "using_declaration")
    {m n : Node} (hm : Edited root m) (hn : Edited root n) (overlaps : m.Overlaps n)
    (below : m ∈ n.preorder) : Bare root m ∧ Removable root n := by
  refine bare_below_of_overlaps leaves ?_ hm hn overlaps below
  intro d d' removable removable' below'
  rcases Node.mem_preorder.1 below' with rfl | ⟨c, hc, hd'⟩
  · rfl
  · exact absurd removable'.kind (unnested d removable.mem removable.kind c hc d' hd')

end

namespace Session

/-- Where names are leaves and declarations are not nested, planning fails because of overlapping
edits exactly if a bare name stands within a declaration that goes. -/
theorem overlappingEdits_iff (parser : Parser) (fallback : NamespaceMap) {source : List UInt8}
    {root : Node} (parsed : parser source = some root) (wf : root.WellFormed source)
    (leaves : ∀ n ∈ root.preorder, n.kind = "identifier" ∨ n.kind = "type_identifier" →
      n.children = [])
    (unnested : ∀ d ∈ root.preorder, d.kind = "using_declaration" →
      ∀ c ∈ d.children, ∀ n ∈ c.preorder, n.kind ≠ "using_declaration") :
    (∃ first second, ((start parser source fallback).take makePlan).1 =
      .error (.overlappingEdits first second)) ↔
    ∃ d, Removable root d ∧ ∃ m ∈ d.preorder, Bare root m ∧ m.Overlaps d := by
  rw [take_makePlan_start fallback parsed, Plan.make_ofTree_eq_error_iff wf]
  constructor
  · rintro ⟨m, n, hm, hn, overlaps⟩
    rcases wf.below_or_apart hm.mem_preorder hn.mem_preorder with
      below | below | apart | apart
    · obtain ⟨bare, removable⟩ :=
        bare_within_of_overlaps leaves unnested hm hn overlaps below
      exact ⟨n, removable, m, below, bare, overlaps⟩
    · obtain ⟨bare, removable⟩ :=
        bare_within_of_overlaps leaves unnested hn hm overlaps.symm below
      exact ⟨m, removable, n, below, bare, overlaps.symm⟩
    · have hstart := overlaps.2.2
      omega
    · have hstart := overlaps.2.1
      omega
  · rintro ⟨d, removable, m, _, bare, overlaps⟩
    exact ⟨m, d, .inl bare, .inr removable, overlaps⟩

/-- The tree of the lines `using B<int>::c;` and `c x;`. -/
def templateScope : Node :=
  .branch "translation_unit" none 0 22 [
    .branch "using_declaration" none 0 16 [
      .literal "using" 0 5,
      .branch "qualified_identifier" none 6 15 [
        .branch "template_type" (some "scope") 6 12 [
          .branch "type_identifier" (some "name") 6 7,
          .branch "template_argument_list" (some "arguments") 7 12 [
            .literal "<" 7 8,
            .branch "type_descriptor" none 8 11 [
              .branch "primitive_type" (some "type") 8 11],
            .literal ">" 11 12]],
        .literal "::" 12 14,
        .branch "identifier" (some "name") 14 15],
      .literal ";" 15 16],
    .branch "declaration" none 17 21 [
      .branch "type_identifier" (some "type") 17 18,
      .branch "identifier" (some "declarator") 19 20,
      .literal ";" 20 21]]

theorem overlappingEdits_iff_templateScope :
    templateScope.WellFormed (Utf8.encode "using B<int>::c;\nc x;\n") ∧
    ∃ d, Removable templateScope d ∧ ∃ m ∈ d.preorder, Bare templateScope m ∧ m.Overlaps d := by
  have wf : templateScope.WellFormed (Utf8.encode "using B<int>::c;\nc x;\n") := by decide +kernel
  refine ⟨wf, (overlappingEdits_iff (fun _ => some templateScope) .empty rfl wf (by decide)
    (by decide)).1 ?_⟩
  exact ⟨⟨0, 16⟩, ⟨6, 7⟩, by decide +kernel⟩

/-- So the declaration is not removed: planning fails. -/
theorem overlappingEdits_templateScope :
    templateScope.WellFormed (Utf8.encode "using B<int>::c;\nc x;\n") ∧
    (∀ n ∈ templateScope.preorder, n.kind = "identifier" ∨ n.kind = "type_identifier" →
      n.children = []) ∧
    (∀ d ∈ templateScope.preorder, d.kind = "using_declaration" →
      ∀ c ∈ d.children, ∀ n ∈ c.preorder, n.kind ≠ "using_declaration") ∧
    ((start (fun _ => some templateScope) (Utf8.encode "using B<int>::c;\nc x;\n")
      .empty).take makePlan).1 = .error (.overlappingEdits ⟨0, 16⟩ ⟨6, 7⟩) := by
  decide +kernel

end Session

end UsingRemoval
