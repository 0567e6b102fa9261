import UsingRemoval.Proofs.Locating
import UsingRemoval.Proofs.Planning

/-!
Which imported names are remembered. A declaration that goes leaves the last part of its name as a
key of the declared namespaces, so that bare occurrences of the name can be qualified. The name is
looked up again in the tree and then followed through its levels, but only as long as a level has a
scope: a name that begins with `::` is forgotten, whatever scopes come after.
-/

set_option autoImplicit false

namespace UsingRemoval

namespace Node

/-! ### The levels of a qualified name -/

private theorem levelsUnder_eq_find? (scope : Node) (cs : List Node) :
    levelsUnder scope cs =
      match cs.find? fun c => c.field == some "name" with
      | none => []
      | some c => (scope, c) :: c.levels := by
  induction cs with
  | nil => rfl
  | cons c cs ih =>
    rw [levelsUnder, List.find?_cons]
    split
    · rename_i hname
      rw [hname]
    · rename_i hname
      have hname : (c.field == some "name") = false := by simpa using hname
      rw [hname, ih]

theorem levels_eq (n : Node) :
    n.levels = match n.child? "scope", n.child? "name" with
      | some scope, some name => (scope, name) :: name.levels
      | _, _ => [] := by
  cases n with
  | mk label children =>
    simp only [levels, child?, Node.children, levelsUnder_eq_find?]
    cases children.find? fun c => c.field == some "scope" with
    | none => rfl
    | some scope => cases children.find? fun c => c.field == some "name" <;> rfl

/-- Following `name` from a node, as long as the node is a qualified name, passes the qualified
names of `way` and ends in `leaf`. -/
inductive Leads : Node → List Node → Node → Prop where
  | leaf {n : Node} (plain : n.kind ≠ "qualified_identifier") : Leads n [] n
  | level {q next leaf : Node} {way : List Node} (qualified : q.kind = "qualified_identifier")
      (name : q.child? "name" = some next) (rest : Leads next way leaf) : Leads q (q :: way) leaf

/-- The first name on the way that has no scope, or else its end. -/
def stopOf (way : List Node) (leaf : Node) : Node :=
  (way.find? fun n => (n.child? "scope").isNone).getD leaf

section

variable {q leaf : Node} {way : List Node}

theorem Leads.self_mem (leads : Leads q way leaf) (qualified : q.kind = "qualified_identifier") :
    q ∈ way := by
  cases leads with
  | leaf plain => exact absurd qualified plain
  | level _ _ _ => exact List.mem_cons_self

theorem stopOf_of_scoped (allScoped : ∀ n ∈ way, (n.child? "scope").isSome) :
    stopOf way leaf = leaf := by
  have hnone : (way.find? fun n => (n.child? "scope").isNone) = none := by
    rw [List.find?_eq_none]
    intro n hn
    simp [Option.isSome_iff_ne_none.1 (allScoped n hn)]
  rw [stopOf, hnone]
  rfl

private theorem last_level_of_leads (leads : Leads q way leaf) (ends : leaf.levels = []) :
    (q.levels.getLast?.map Prod.snd).getD q = stopOf way leaf := by
  induction leads with
  | leaf plain =>
    rw [ends]
    rfl
  | @level q next leaf way qualified name rest ih =>
    cases hscope : q.child? "scope" with
    | none =>
      have hlevels : q.levels = [] := by rw [levels_eq, hscope]
      have hstop : stopOf (q :: way) leaf = q := by simp [stopOf, hscope]
      rw [hlevels, hstop]
      rfl
    | some scope =>
      have hlevels : q.levels = (scope, next) :: next.levels := by rw [levels_eq, hscope, name]
      have hstop : stopOf (q :: way) leaf = stopOf way leaf := by simp [stopOf, hscope]
      rw [hstop, ← ih ends, hlevels, List.getLast?_cons]
      cases next.levels.getLast? <;> rfl

private theorem exists_splitQualified?_iff (source : List UInt8) {name : String} :
    (∃ scope, q.splitQualified? source = some (name, scope)) ↔
      ∃ level, q.levels.getLast? = some level ∧ level.2.text source = name := by
  simp only [splitQualified?, Option.map_eq_some_iff, Prod.mk.injEq]
  constructor
  · rintro ⟨scope, level, hlevel, htext, _⟩
    exact ⟨level, hlevel, htext⟩
  · rintro ⟨level, hlevel, htext⟩
    exact ⟨_, level, hlevel, htext, rfl⟩

theorem exists_splitQualified?_of_leads (source : List UInt8) {name : String}
    (qualified : q.kind = "qualified_identifier") (leads : Leads q way leaf)
    (ends : leaf.child? "scope" = none ∨ leaf.child? "name" = none) :
    (∃ scope, q.splitQualified? source = some (name, scope)) ↔
      (q.child? "scope").isSome ∧ (stopOf way leaf).text source = name := by
  have hends : leaf.levels = [] := by
    rw [levels_eq]
    rcases ends with h | h
    · rw [h]
    · rw [h]
      cases leaf.child? "scope" <;> rfl
  have hlast := last_level_of_leads leads hends
  rw [exists_splitQualified?_iff]
  cases leads with
  | leaf plain => exact absurd qualified plain
  | @level _ next _ way _ hname rest =>
    cases hscope : q.child? "scope" with
    | none =>
      have hlevels : q.levels = [] := by rw [levels_eq, hscope]
      simp [hlevels]
    | some scope =>
      have hlevels : q.levels = (scope, next) :: next.levels := by rw [levels_eq, hscope, hname]
      rw [hlevels, List.getLast?_cons] at hlast ⊢
      rw [← hlast]
      simp

end

end Node

namespace Survey

/-- The name in a declaration `using a::b;` of the tree. -/
def Imported (root q : Node) : Prop :=
  q.span.stop ≠ 0 ∧ q.Is "qualified_identifier" ∧
    ∃ d ∈ root.preorder, IsDeclaration d ∧ q ∈ d.children

/-- The name of some declaration is found again in the tree as this node. -/
def FoundAgain (root found : Node) : Prop :=
  ∃ q, Imported root q ∧ ∃ up, root.locate? q.span q.kind = some (found, up)

end Survey

open Survey CaptureSet

theorem NamespaceMap.mem_ofList {l : List (String × String)} {pair : String × String} :
    pair ∈ (Ordered.ofList l : NamespaceMap).toList ↔ Ordered.LastIn Prod.fst l pair := by
  rw [Ordered.ofList, Ordered.mem_insertMany]
  simp [Ordered.empty]

private theorem NamespaceMap.mem_of_get?_ofList {l : List (String × String)} {name scope : String}
    (h : NamespaceMap.get? (Ordered.ofList l) name = some scope) : (name, scope) ∈ l := by
  obtain ⟨pair, hfind, rfl⟩ := Option.map_eq_some_iff.1 h
  obtain ⟨hpair, rfl⟩ := Ordered.find?_eq_some_iff.1 hfind
  exact (mem_ofList.1 hpair).mem

private theorem NamespaceMap.exists_get?_ofList_iff {l : List (String × String)} {name : String} :
    (∃ scope, NamespaceMap.get? (Ordered.ofList l) name = some scope) ↔
      ∃ pair ∈ l, pair.1 = name := by
  constructor
  · rintro ⟨scope, hget⟩
    exact ⟨(name, scope), mem_of_get?_ofList hget, rfl⟩
  · rintro ⟨pair, hpair, rfl⟩
    obtain ⟨last, hlast, hkey⟩ := Ordered.exists_lastIn Prod.fst hpair
    have hfind := Ordered.find?_eq_some_iff.2 ⟨mem_ofList.2 hlast, hkey⟩
    exact ⟨last.2, by rw [NamespaceMap.get?, hfind]; rfl⟩

theorem Resolution.found_of_declared {root : Node} {source : List UInt8} {name scope : String}
    (declared : (Resolution.ofTree root source).declared.get? name = some scope) :
    ∃ found, FoundAgain root found ∧ found.splitQualified? source = some (name, scope) := by
  simp only [ofTree, ofCaptures, declaredIn] at declared
  have hentry := NamespaceMap.mem_of_get?_ofList declared
  simp only [List.mem_filterMap, Option.bind_eq_bind, Option.bind_eq_some_iff] at hentry
  obtain ⟨c, hc, ⟨found, up⟩, hlocate, hsplit⟩ := hentry
  obtain ⟨d, hd, q, hnotes, rfl⟩ := of_mem_group hc
  obtain ⟨hstop, declaration, hq, qualified⟩ := exists_notes_usingQualType.1 hnotes
  exact ⟨found, ⟨q, ⟨hstop, qualified, d, hd, declaration, hq⟩, up, hlocate⟩, hsplit⟩

theorem Resolution.exists_declared_iff (root : Node) (source : List UInt8) {name : String} :
    (∃ scope, (Resolution.ofTree root source).declared.get? name = some scope) ↔
      ∃ found, FoundAgain root found ∧
        ∃ scope, found.splitQualified? source = some (name, scope) := by
  constructor
  · rintro ⟨scope, declared⟩
    obtain ⟨found, again, hsplit⟩ := found_of_declared declared
    exact ⟨found, again, scope, hsplit⟩
  · rintro ⟨found, ⟨q, ⟨hstop, qualified, d, hd, declaration, hq⟩, up, hlocate⟩, scope, hsplit⟩
    obtain ⟨c, hc, hspan⟩ := exists_mem_group_iff.2
      ⟨d, hd, q, exists_notes_usingQualType.2 ⟨hstop, declaration, hq, qualified⟩, rfl⟩
    -- the capture with the span of `q` may come from another name, but not of another kind
    obtain ⟨_, _, m, hnotes, rfl⟩ := of_mem_group hc
    have hkind : m.kind = q.kind :=
      (exists_notes_usingQualType.1 hnotes).2.2.2.2.trans qualified.2.symm
    have hlocate' : root.locate? m.span m.kind = some (found, up) := by
      rw [hkind, show m.span = q.span from hspan, hlocate]
    simp only [ofTree, ofCaptures, declaredIn, NamespaceMap.exists_get?_ofList_iff,
      List.mem_filterMap, Option.bind_eq_bind, Option.bind_eq_some_iff]
    exact ⟨(name, scope), ⟨_, hc, (found, up), hlocate', hsplit⟩, rfl⟩

namespace Session

/-- The last part of an imported name is declared if the name has a scope at each level. In general
it is declared exactly if the name has a scope and its last part is what it is split into, or if
another name that is found again is split into the same. -/
theorem import_declared_iff (parser : Parser) (fallback : NamespaceMap) {source : List UInt8}
    {root d q leaf : Node} {way : List Node} (parsed : parser source = some root)
    (wf : root.WellFormed source) (hd : d ∈ root.preorder) (declaration : IsDeclaration d)
    (hq : q ∈ d.children) (qualified : q.Is "qualified_identifier")
    (nonempty : q.span.start < q.span.stop)
    (unshared : ∀ n ∈ root.preorder, n.kind = "qualified_identifier" → n.span = q.span → n = q)
    (leads : q.Leads way leaf)
    (ends : leaf.child? "scope" = none ∨ leaf.child? "name" = none) :
    ∃ resolution, ((start parser source fallback).take resolve).1 = .ok resolution ∧
      ((∀ n ∈ way, (n.child? "scope").isSome) →
        ∃ scope, resolution.declared.get? (leaf.text source) = some scope) ∧
      ((∃ scope, resolution.declared.get? (leaf.text source) = some scope) ↔
        ((q.child? "scope").isSome ∧ (Node.stopOf way leaf).text source = leaf.text source) ∨
        ∃ other, other ≠ q ∧ FoundAgain root other ∧
          ∃ scope, other.splitQualified? source = some (leaf.text source, scope)) := by
  refine ⟨_, take_resolve_start fallback parsed, ?_⟩
  have found : FoundAgain root q := by
    have hmem := Node.mem_preorder_of_mem_children hd hq
    rw [← qualified.2] at unshared
    obtain ⟨up, hlocate⟩ := Node.locate?_of_unshared wf hmem nonempty unshared
    exact ⟨q, ⟨by omega, qualified, d, hd, declaration, hq⟩, up, hlocate⟩
  have hsplit : (∃ scope, q.splitQualified? source = some (leaf.text source, scope)) ↔ _ :=
    Node.exists_splitQualified?_of_leads source qualified.2 leads ends
  rw [Resolution.exists_declared_iff, ← hsplit]
  refine ⟨?_, ?_, ?_⟩
  · intro allScoped
    refine ⟨q, found, hsplit.2 ⟨allScoped q (leads.self_mem qualified.2), ?_⟩⟩
    rw [Node.stopOf_of_scoped allScoped]
  · rintro ⟨n, hn, hname⟩
    by_cases hnq : n = q
    · exact .inl (hnq ▸ hname)
    · exact .inr ⟨n, hnq, hn, hname⟩
  · rintro (hname | ⟨other, _, hother, hname⟩)
    · exact ⟨q, found, hname⟩
    · exact ⟨other, hother, hname⟩

theorem unshared_of_filter {root q : Node}
    (alone : (root.preorder.filter fun n =>
      n.kind = "qualified_identifier" ∧ n.span = q.span) = [q]) :
    ∀ n ∈ root.preorder, n.kind = "qualified_identifier" → n.span = q.span → n = q := by
  intro n hn hkind hspan
  have hmem : n ∈ [q] := by
    rw [← alone]
    exact List.mem_filter.2 ⟨hn, by simp [hkind, hspan]⟩
  exact List.mem_singleton.1 hmem

def nestedName : Node :=
  .branch "qualified_identifier" none 6 13 [
    .branch "namespace_identifier" (some "scope") 6 7,
    .literal "::" 7 9,
    .branch "qualified_identifier" (some "name") 9 13 [
      .branch "namespace_identifier" (some "scope") 9 10,
      .literal "::" 10 12,
      .branch "identifier" (some "name") 12 13]]

/-- The tree of the lines `using a::b::c;` and `c x;`. -/
def nestedImport : Node :=
  .branch "translation_unit" none 0 20 [
    .branch "using_declaration" none 0 14 [
      .literal "using" 0 5, nestedName, .literal ";" 13 14],
    .branch "declaration" none 15 19 [
      .branch "type_identifier" (some "type") 15 16,
      .branch "identifier" (some "declarator") 17 18,
      .literal ";" 18 19]]

theorem import_declared_nestedName :
    ∃ resolution, ((start (fun _ => some nestedImport) (Utf8.encode "using a::b::c;\nc x;\n")
        .empty).take resolve).1 = .ok resolution ∧
      ∃ scope, resolution.declared.get? "c" = some scope := by
  have wf : nestedImport.WellFormed (Utf8.encode "using a::b::c;\nc x;\n") := by decide +kernel
  have hdeclaration : ∃ d ∈ nestedImport.preorder, IsDeclaration d ∧ nestedName ∈ d.children :=
    ⟨_, .tail _ (.head _), ⟨⟨rfl, rfl⟩, ⟨nestedName, .tail _ (.head _), rfl, rfl⟩, by decide⟩,
      .tail _ (.head _)⟩
  obtain ⟨d, hd, declaration, hq⟩ := hdeclaration
  have leads := Node.Leads.level (q := nestedName) rfl rfl
    (.level rfl rfl (.leaf (by decide)))
  obtain ⟨resolution, answer, declared, _⟩ := import_declared_iff (fun _ => some nestedImport)
    .empty rfl wf hd declaration hq ⟨rfl, rfl⟩ (by decide) (unshared_of_filter rfl) leads (.inl rfl)
  exact ⟨resolution, answer, declared (by decide)⟩

def globalName : Node :=
  .branch "qualified_identifier" none 6 12 [
    .literal "::" 6 8,
    .branch "qualified_identifier" (some "name") 8 12 [
      .branch "namespace_identifier" (some "scope") 8 9,
      .literal "::" 9 11,
      .branch "identifier" (some "name") 11 12]]

/-- The tree of the lines `using ::a::b;` and `b f;`. -/
def globalImport : Node :=
  .branch "translation_unit" none 0 19 [
    .branch "using_declaration" none 0 13 [
      .literal "using" 0 5, globalName, .literal ";" 12 13],
    .branch "declaration" none 14 18 [
      .branch "type_identifier" (some "type") 14 15,
      .branch "identifier" (some "declarator") 16 17,
      .literal ";" 17 18]]

/-- The name `b` is not declared by `using ::a::b;`, although the scope `a` stands before it: the
declaration goes, and the bare `b` stays as it is. -/
theorem import_forgotten_globalName :
    globalImport.WellFormed (Utf8.encode "using ::a::b;\nb f;\n") ∧
    (∃ d ∈ globalImport.preorder, IsDeclaration d ∧ globalName ∈ d.children) ∧
    globalName.Is "qualified_identifier" ∧ globalName.span.start < globalName.span.stop ∧
    (∀ n ∈ globalImport.preorder, n.kind = "qualified_identifier" →
      n.span = globalName.span → n = globalName) ∧
    (∃ way leaf, globalName.Leads way leaf ∧ leaf.children = [] ∧
      (∃ n ∈ way, (n.child? "scope").isSome) ∧
      leaf.text (Utf8.encode "using ::a::b;\nb f;\n") = "b") ∧
    (∃ resolution, ((start (fun _ => some globalImport) (Utf8.encode "using ::a::b;\nb f;\n")
      .empty).take resolve).1 = .ok resolution ∧ resolution.declared.get? "b" = none) ∧
    ((start (fun _ => some globalImport) (Utf8.encode "using ::a::b;\nb f;\n")
      .empty).take fix).1 = .ok (Utf8.encode "b f;\n") := by
  have leads := Node.Leads.level (q := globalName) rfl rfl (.level rfl rfl (.leaf (by decide)))
  refine ⟨by decide +kernel, ?_, ⟨rfl, rfl⟩, by decide, unshared_of_filter rfl,
    ⟨_, _, leads, rfl, by decide, by decide +kernel⟩,
    ⟨_, take_resolve_start _ rfl, by decide +kernel⟩, by decide +kernel⟩
  exact ⟨_, .tail _ (.head _), ⟨⟨rfl, rfl⟩, ⟨globalName, .tail _ (.head _), rfl, rfl⟩, by decide⟩,
    .tail _ (.head _)⟩

end Session

end UsingRemoval
