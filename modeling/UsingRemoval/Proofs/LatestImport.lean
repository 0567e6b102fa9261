import UsingRemoval.Proofs.Imports

/-!
Which declaration a name gets its namespace from. Several declarations may import the same name;
they are gone through in span order, each replacing what an earlier one has said, so the last one
counts. Where the imported names can be told apart by their spans, each of them is found again, and
none is passed over.
-/

set_option autoImplicit false

namespace UsingRemoval

namespace Ordered

universe u v w

variable {α : Type u} {β : Type v} {κ : Type w}

theorem lastIn_filterMap_iff {earlier : α → α → Prop} [Std.Asymm earlier] {key : β → κ}
    {f : α → Option β} {l : List α} (sorted : l.Pairwise earlier) {b : β} :
    LastIn key (l.filterMap f) b ↔
      ∃ a ∈ l, f a = some b ∧
        ∀ later ∈ l, earlier a later → ∀ c, f later = some c → key c ≠ key b := by
  constructor
  · rintro ⟨before, after, split, last⟩
    obtain ⟨l₁, l₂, rfl, _, hl₂⟩ := List.filterMap_eq_append_iff.1 split
    obtain ⟨skipped, a, rest, rfl, _, ha, rfl⟩ := List.filterMap_eq_cons_iff.1 hl₂
    refine ⟨a, by simp, ha, ?_⟩
    intro later hlater hearlier c hc
    apply last c
    rw [← List.append_assoc] at sorted hlater
    -- an item that comes after `a` in the order stands behind it in the list
    rcases List.mem_append.1 hlater with hfront | hback
    · have reversed := (List.pairwise_append.1 sorted).2.2 later hfront a List.mem_cons_self
      exact absurd hearlier (Std.Asymm.asymm _ _ reversed)
    · rcases List.mem_cons.1 hback with rfl | hrest
      · exact absurd hearlier (Std.Asymm.asymm _ _ hearlier)
      · exact List.mem_filterMap.2 ⟨later, hrest, hc⟩
  · rintro ⟨a, ha, hfa, last⟩
    obtain ⟨front, rest, rfl⟩ := List.append_of_mem ha
    refine ⟨front.filterMap f, rest.filterMap f, by simp [hfa], ?_⟩
    intro c hc
    obtain ⟨later, hlater, hc⟩ := List.mem_filterMap.1 hc
    have hearlier := (List.pairwise_cons.1 (List.pairwise_append.1 sorted).2.1).1 later hlater
    exact last later (by simp [hlater]) hearlier c hc

end Ordered

namespace Span

/-- The span comes first in the order of spans. -/
def Earlier (a b : Span) : Prop :=
  a.start < b.start ∨ a.start = b.start ∧ a.stop < b.stop

instance (a b : Span) : Decidable (a.Earlier b) :=
  inferInstanceAs (Decidable (_ ∨ _))

end Span

theorem NamespaceMap.get?_ofList_eq_some_iff {l : List (String × String)} {name scope : String} :
    NamespaceMap.get? (Ordered.ofList l) name = some scope ↔
      Ordered.LastIn Prod.fst l (name, scope) := by
  rw [← mem_ofList, get?, Option.map_eq_some_iff]
  constructor
  · rintro ⟨pair, found, rfl⟩
    obtain ⟨hpair, rfl⟩ := Ordered.find?_eq_some_iff.1 found
    exact hpair
  · intro hpair
    exact ⟨(name, scope), Ordered.find?_eq_some_iff.2 ⟨hpair, rfl⟩, rfl⟩

open Survey CaptureSet

theorem CaptureSet.pairwise_group (set : CaptureSet) (tag : Tag) :
    (set.group tag).Pairwise fun c d => c.span.Earlier d.span := by
  have sorted := set.sorted.filter fun c => c.tag == tag
  refine sorted.imp_of_mem ?_
  intro c d hc hd hlt
  have htag : c.tag = d.tag := by
    have hc' := (List.mem_filter.1 hc).2
    have hd' := (List.mem_filter.1 hd).2
    simp_all
  have hslot : (compare c.tag d.tag).then (compare c.span d.span) = .lt := hlt
  rw [htag, Std.ReflOrd.compare_self] at hslot
  exact Span.compare_eq_lt_iff.1 hslot

theorem mem_group_usingQualType_iff {root : Node} {source : List UInt8} {c : Capture} :
    c ∈ (collect root source).group .usingQualType ↔
      ∃ q, Imported root q ∧ c = Capture.ofNode source .usingQualType q := by
  constructor
  · intro hc
    obtain ⟨d, hd, q, hnotes, rfl⟩ := of_mem_group hc
    obtain ⟨hstop, declaration, hq, qualified⟩ := exists_notes_usingQualType.1 hnotes
    exact ⟨q, ⟨hstop, qualified, d, hd, declaration, hq⟩, rfl⟩
  · rintro ⟨q, ⟨hstop, qualified, d, hd, declaration, hq⟩, rfl⟩
    obtain ⟨c, hc, hspan⟩ := exists_mem_group_iff.2
      ⟨d, hd, q, exists_notes_usingQualType.2 ⟨hstop, declaration, hq, qualified⟩, rfl⟩
    -- the capture with the span of `q` has its kind, and hence is the capture of `q`
    obtain ⟨_, _, m, hnotes, rfl⟩ := of_mem_group hc
    have hkind : m.kind = q.kind :=
      (exists_notes_usingQualType.1 hnotes).2.2.2.2.trans qualified.2.symm
    have hspan : m.span = q.span := hspan
    have same : Capture.ofNode source .usingQualType m = .ofNode source .usingQualType q := by
      simp only [Capture.ofNode, Node.text, hspan, hkind]
    rwa [same] at hc

namespace Resolution

variable {root : Node} {source : List UInt8}

/-- Every imported name has a span of its own, which is not empty. -/
def Distinguished (root : Node) : Prop :=
  ∀ q, Imported root q → q.span.start < q.span.stop ∧
    ∀ n ∈ root.preorder, n.kind = "qualified_identifier" → n.span = q.span → n = q

theorem Distinguished.located (wf : root.WellFormed source) (distinguished : Distinguished root)
    {q : Node} (imported : Imported root q) : ∃ up, root.locate? q.span q.kind = some (q, up) := by
  obtain ⟨nonempty, unshared⟩ := distinguished q imported
  obtain ⟨_, qualified, d, hd, _, hq⟩ := imported
  have hmem := Node.mem_preorder_of_mem_children hd hq
  rw [← qualified.2] at unshared
  exact Node.locate?_of_unshared wf hmem nonempty unshared

theorem declared_eq_some_iff (wf : root.WellFormed source) (distinguished : Distinguished root)
    {name scope : String} :
    (declaredIn (collect root source) root source).get? name = some scope ↔
      ∃ q, Imported root q ∧ q.splitQualified? source = some (name, scope) ∧
        ∀ later, Imported root later → q.span.Earlier later.span →
          ∀ other, later.splitQualified? source ≠ some (name, other) := by
  have entry {q : Node} (imported : Imported root q) :
      (root.locate? q.span q.kind).bind (fun found => found.1.splitQualified? source) =
        q.splitQualified? source := by
    obtain ⟨up, hlocate⟩ := distinguished.located wf imported
    rw [hlocate]
    rfl
  have asymm : Std.Asymm fun c d : Capture => c.span.Earlier d.span := by
    constructor
    unfold Span.Earlier
    omega
  rw [declaredIn, NamespaceMap.get?_ofList_eq_some_iff,
    Ordered.lastIn_filterMap_iff (pairwise_group _ _)]
  simp only [mem_group_usingQualType_iff]
  constructor
  · rintro ⟨_, ⟨q, imported, rfl⟩, split, last⟩
    refine ⟨q, imported, (entry imported).symm.trans split, ?_⟩
    intro later himported hearlier other hother
    exact last _ ⟨later, himported, rfl⟩ hearlier (name, other) ((entry himported).trans hother) rfl
  · rintro ⟨q, imported, split, last⟩
    refine ⟨_, ⟨q, imported, rfl⟩, (entry imported).trans split, ?_⟩
    rintro _ ⟨later, himported, rfl⟩ hearlier ⟨key, other⟩ hother hkey
    obtain rfl : key = name := hkey
    exact last later himported hearlier other ((entry himported).symm.trans hother)

theorem Distinguished.foundAgain_iff (wf : root.WellFormed source)
    (distinguished : Distinguished root) {q : Node} : FoundAgain root q ↔ Imported root q := by
  constructor
  · rintro ⟨n, imported, up, hlocate⟩
    obtain ⟨up', hlocate'⟩ := distinguished.located wf imported
    rw [hlocate'] at hlocate
    cases hlocate
    exact imported
  · intro imported
    exact ⟨q, imported, distinguished.located wf imported⟩

theorem declared_eq_none_iff (wf : root.WellFormed source) (distinguished : Distinguished root)
    {name : String} :
    (declaredIn (collect root source) root source).get? name = none ↔
      ∀ q, Imported root q → ∀ scope, q.splitQualified? source ≠ some (name, scope) := by
  have declared := @exists_declared_iff root source name
  simp only [distinguished.foundAgain_iff wf] at declared
  rw [Option.eq_none_iff_forall_ne_some]
  constructor
  · intro undeclared q imported scope split
    obtain ⟨scope', hget⟩ := declared.2 ⟨q, imported, scope, split⟩
    exact undeclared scope' hget
  · intro unsplit scope hget
    obtain ⟨q, imported, scope', split⟩ := declared.1 ⟨scope, hget⟩
    exact unsplit q imported scope' split

/-- Every captured name of a declaration is found again as itself. A name has the namespace of the
last captured declaration that splits into it, and none exactly if no captured declaration does. -/
theorem last_declaration_wins (wf : root.WellFormed source) (distinguished : Distinguished root) :
    let captured := (collect root source).group .usingQualType
    let declared := declaredIn (collect root source) root source
    (∀ c, c ∈ captured ↔ ∃ q, Imported root q ∧ c = Capture.ofNode source .usingQualType q) ∧
    (∀ q, Imported root q → ∃ up, root.locate? q.span q.kind = some (q, up)) ∧
    (∀ name scope, declared.get? name = some scope ↔
      ∃ q, Imported root q ∧ q.splitQualified? source = some (name, scope) ∧
        ∀ later, Imported root later → q.span.Earlier later.span →
          ∀ other, later.splitQualified? source ≠ some (name, other)) ∧
    ∀ name, declared.get? name = none ↔
      ∀ q, Imported root q → ∀ scope, q.splitQualified? source ≠ some (name, scope) := by
  intro captured declared
  exact ⟨fun _ => mem_group_usingQualType_iff, fun _ => distinguished.located wf,
    fun _ _ => declared_eq_some_iff wf distinguished,
    fun _ => declared_eq_none_iff wf distinguished⟩

/-- The name of `using a::w;` at the beginning of a source. -/
def firstName : Node :=
  .branch "qualified_identifier" none 6 10 [
    .branch "namespace_identifier" (some "scope") 6 7,
    .literal "::" 7 9,
    .branch "identifier" (some "name") 9 10]

/-- The name of `using b::c::w;` on the second line. -/
def secondName : Node :=
  .branch "qualified_identifier" none 18 25 [
    .branch "namespace_identifier" (some "scope") 18 19,
    .literal "::" 19 21,
    .branch "qualified_identifier" (some "name") 21 25 [
      .branch "namespace_identifier" (some "scope") 21 22,
      .literal "::" 22 24,
      .branch "identifier" (some "name") 24 25]]

def secondDeclaration : Node :=
  .branch "using_declaration" none 12 26 [
    .literal "using" 12 17, secondName, .literal ";" 25 26]

/-- The tree of the lines `using a::w;` and `using b::c::w;`. -/
def importedTwice : Node :=
  .branch "translation_unit" none 0 27 [
    .branch "using_declaration" none 0 11 [
      .literal "using" 0 5, firstName, .literal ";" 10 11],
    secondDeclaration]

private theorem eq_of_imported {q : Node} (imported : Imported importedTwice q) :
    q = firstName ∨ q = secondName := by
  obtain ⟨_, qualified, d, hd, declaration, hq⟩ := imported
  have names : ((importedTwice.preorder.filter fun d => d.kind = "using_declaration").flatMap
      Node.children).filter (fun q => q.kind = "qualified_identifier") =
        [firstName, secondName] := rfl
  have hmem : q ∈ [firstName, secondName] := by
    rw [← names]
    refine List.mem_filter.2 ⟨List.mem_flatMap.2 ⟨d, List.mem_filter.2 ⟨hd, ?_⟩, hq⟩, ?_⟩
    · exact decide_eq_true declaration.1.2
    · exact decide_eq_true qualified.2
  simpa using hmem

theorem last_declaration_wins_importedTwice :
    importedTwice.WellFormed (Utf8.encode "using a::w;\nusing b::c::w;\n") ∧
    Distinguished importedTwice ∧
    (declaredIn (collect importedTwice (Utf8.encode "using a::w;\nusing b::c::w;\n"))
      importedTwice (Utf8.encode "using a::w;\nusing b::c::w;\n")).get? "w" = some "b::c" := by
  have wf : importedTwice.WellFormed (Utf8.encode "using a::w;\nusing b::c::w;\n") := by
    decide +kernel
  have distinguished : Distinguished importedTwice := by
    intro q imported
    rcases eq_of_imported imported with rfl | rfl
    · exact ⟨by decide, Session.unshared_of_filter rfl⟩
    · exact ⟨by decide, Session.unshared_of_filter rfl⟩
  refine ⟨wf, distinguished, ?_⟩
  obtain ⟨_, _, declared, _⟩ := last_declaration_wins wf distinguished
  apply (declared "w" "b::c").2
  refine ⟨secondName, ?_, by decide +kernel, ?_⟩
  · have hname : secondName ∈ secondDeclaration.children := .tail _ (.head _)
    have hdeclaration : secondDeclaration ∈ importedTwice.preorder :=
      Node.mem_preorder_of_mem_children (Node.self_mem_preorder importedTwice) (.tail _ (.head _))
    exact ⟨by decide, ⟨rfl, rfl⟩, secondDeclaration, hdeclaration,
      ⟨⟨rfl, rfl⟩, ⟨secondName, hname, rfl, rfl⟩, by decide⟩, hname⟩
  · intro later imported hearlier
    rcases eq_of_imported imported with rfl | rfl
    · exact absurd hearlier (by decide)
    · exact absurd hearlier (by decide)

end Resolution

end UsingRemoval
