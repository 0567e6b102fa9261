import UsingRemoval.Proofs.Planning

/-!
Names behind `::`. A name that is the name of a qualified name needs no namespace, but only some
shapes of qualified names are looked for. A plan leaves all such names alone exactly if those that
the shapes do not cover have no namespace in any table.
-/

set_option autoImplicit false

namespace UsingRemoval

open Survey

/-- The name of a qualified name begins at this offset, right behind a `::`. -/
def Node.NameBegins (root : Node) (offset : Nat) : Prop :=
  ∃ q ∈ root.preorder, q.kind = "qualified_identifier" ∧
    ∃ n ∈ q.children, n.field = some "name" ∧ n.span.start = offset

instance (root : Node) (offset : Nat) : Decidable (root.NameBegins offset) :=
  inferInstanceAs (Decidable (∃ q ∈ root.preorder, q.kind = "qualified_identifier" ∧
    ∃ n ∈ q.children, n.field = some "name" ∧ n.span.start = offset))

namespace Session

/-- A plan qualifies no name behind a `::` exactly if no bare name with a namespace begins there. -/
theorem no_second_namespace_iff (parser : Parser) (fallback : NamespaceMap) {source : List UInt8}
    {root : Node} {plan : Plan} (parsed : parser source = some root)
    (planned : ((start parser source fallback).take makePlan).1 = .ok plan) :
    (∀ e ∈ plan.edits, ∀ scope, e.action = .qualify scope → e.span.start < e.span.stop →
      ¬ root.NameBegins e.span.start) ↔
    ∀ m, Bare root m → m.span.start < m.span.stop → root.NameBegins m.span.start →
      (Resolution.ofTree root source).namespaceFor? fallback (m.text source) = none := by
  rw [take_makePlan_start fallback parsed] at planned
  rw [Plan.edits_of_make_ofTree planned]
  constructor
  · intro single m bare nonempty begins
    by_contra hsome
    obtain ⟨scope, hscope⟩ := Option.ne_none_iff_exists'.1 hsome
    have hedit := Plan.qualify_mem_editsFor_iff.2 ⟨m, bare, rfl, hscope⟩
    exact single _ hedit scope rfl nonempty begins
  · rintro unresolved ⟨span, action⟩ hedit scope rfl nonempty begins
    obtain ⟨m, bare, rfl, hscope⟩ := Plan.qualify_mem_editsFor_iff.1 hedit
    rw [unresolved m bare nonempty begins] at hscope
    cases hscope

def spelledAndBare : Node :=
  .branch "translation_unit" none 0 24 [
    .branch "declaration" none 0 14 [
      .branch "qualified_identifier" (some "type") 0 11 [
        .branch "namespace_identifier" (some "scope") 0 3,
        .literal "::" 3 5,
        .branch "type_identifier" (some "name") 5 11],
      .branch "identifier" (some "declarator") 12 13,
      .literal ";" 13 14],
    .branch "declaration" none 15 24 [
      .branch "type_identifier" (some "type") 15 21,
      .branch "identifier" (some "declarator") 22 23,
      .literal ";" 23 24]]

theorem no_second_namespace_spelledAndBare :
    ((start (fun _ => some spelledAndBare) (Utf8.encode "std::string s; string t;")
      (.ofList [("string", "std")])).take makePlan).1 =
        .ok ⟨[⟨⟨15, 21⟩, .qualify "std"⟩], []⟩ ∧
    ∀ m, Bare spelledAndBare m → m.span.start < m.span.stop →
      spelledAndBare.NameBegins m.span.start →
      (Resolution.ofTree spelledAndBare (Utf8.encode "std::string s; string t;")).namespaceFor?
        (.ofList [("string", "std")]) (m.text (Utf8.encode "std::string s; string t;")) = none := by
  have planned : ((start (fun _ => some spelledAndBare) (Utf8.encode "std::string s; string t;")
      (.ofList [("string", "std")])).take makePlan).1 =
        .ok ⟨[⟨⟨15, 21⟩, .qualify "std"⟩], []⟩ := by
    decide +kernel
  refine ⟨planned, (no_second_namespace_iff _ _ rfl planned).1 ?_⟩
  intro e he scope _ _
  obtain rfl := List.mem_singleton.1 he
  decide

/-- The tree of `a::vector<int>::b::c it;` and a line feed. -/
def memberOfMember : Node :=
  .branch "translation_unit" none 0 25 [
    .branch "declaration" none 0 24 [
      .branch "qualified_identifier" (some "type") 0 20 [
        .branch "namespace_identifier" (some "scope") 0 1,
        .literal "::" 1 3,
        .branch "qualified_identifier" (some "name") 3 20 [
          .branch "template_type" (some "scope") 3 14 [
            .branch "type_identifier" (some "name") 3 9,
            .branch "template_argument_list" (some "arguments") 9 14 [
              .literal "<" 9 10,
              .branch "type_descriptor" none 10 13 [
                .branch "primitive_type" (some "type") 10 13],
              .literal ">" 13 14]],
          .literal "::" 14 16,
          .branch "qualified_identifier" (some "name") 16 20 [
            .branch "namespace_identifier" (some "scope") 16 17,
            .literal "::" 17 19,
            .branch "type_identifier" (some "name") 19 20]]],
      .branch "identifier" (some "declarator") 21 23,
      .literal ";" 23 24]]

/-- The template `vector` of `a::vector<int>::b::c` is qualified although `a::` stands before it:
the shape with a member covers one member and not two. -/
theorem second_namespace_memberOfMember :
    memberOfMember.WellFormed (Utf8.encode "a::vector<int>::b::c it;\n") ∧
    ∃ plan, ((start (fun _ => some memberOfMember) (Utf8.encode "a::vector<int>::b::c it;\n")
      (.ofList [("vector", "std")])).take makePlan).1 = .ok plan ∧
    ∃ e ∈ plan.edits, e.action = .qualify "std" ∧ e.span.start < e.span.stop ∧
      memberOfMember.NameBegins e.span.start := by
  refine ⟨by decide +kernel, ⟨[⟨⟨3, 9⟩, .qualify "std"⟩], []⟩, ?_, ⟨⟨3, 9⟩, .qualify "std"⟩, ?_⟩
  · decide +kernel
  · decide

end Session

end UsingRemoval
