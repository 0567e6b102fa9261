import UsingRemoval.Proofs.Candidates
import UsingRemoval.Proofs.Disjoint
import UsingRemoval.Proofs.Recomputation

/-!
What a plan made from a tree holds. The nodes of the tree never fail the check of their kinds, so a
plan fails only because of edits that overlap; otherwise every bare name has the edit of its text
and every other removable node goes.
-/

set_option autoImplicit false

namespace UsingRemoval

def Resolution.ofTree (root : Node) (source : List UInt8) : Resolution :=
  .ofCaptures (CaptureSet.collect root source) root source

namespace Plan

open Survey CaptureSet

section

variable {captures : CaptureSet} {resolution : Resolution} {fallback : NamespaceMap}

theorem qualification_span (c : Capture) : (qualification resolution fallback c).span = c.span := by
  unfold qualification
  split <;> rfl

theorem expectKinds_ok {kinds : List String} {l : List Capture} (h : ∀ c ∈ l, c.kind ∈ kinds) :
    expectKinds kinds l = .ok () := by
  have hfind : (l.find? fun c => !kinds.contains c.kind) = none := by
    rw [List.find?_eq_none]
    intro c hc
    simp [h c hc]
  rw [expectKinds, hfind]

theorem mem_allEdits {e : Edit} :
    e ∈ (allEdits captures resolution fallback).toList ↔
      (∃ c ∈ resolution.unqualified.toList, qualification resolution fallback c = e) ∨
      (∀ c ∈ resolution.unqualified.toList, c.span ≠ e.span) ∧
        ∃ c ∈ deletions captures, deletion c = e := by
  have hnames : ∀ a ∈ resolution.unqualified.toList.map (qualification resolution fallback),
      ∀ b ∈ resolution.unqualified.toList.map (qualification resolution fallback),
      a.span = b.span → a = b := by
    intro a ha b hb hspan
    obtain ⟨c, hc, rfl⟩ := List.mem_map.1 ha
    obtain ⟨d, hd, rfl⟩ := List.mem_map.1 hb
    rw [qualification_span, qualification_span] at hspan
    rw [resolution.unqualified.eq_of_key_eq hc hd hspan]
  have hdeletions : ∀ a ∈ (deletions captures).map deletion,
      ∀ b ∈ (deletions captures).map deletion, a.span = b.span → a = b := by
    intro a ha b hb hspan
    obtain ⟨c, hc, rfl⟩ := List.mem_map.1 ha
    obtain ⟨d, hd, rfl⟩ := List.mem_map.1 hb
    simpa [deletion] using hspan
  rw [allEdits, Ordered.mem_foldl_insertNew, Ordered.firstIn_append,
    Ordered.firstIn_iff_mem hnames, Ordered.firstIn_iff_mem hdeletions]
  simp [Ordered.empty, qualification_span]

theorem make_of_kinds (names : ∀ c ∈ resolution.unqualified.toList, c.kind ∈ nameKinds)
    (declarations : ∀ c ∈ deletions captures, c.kind ∈ declarationKinds) :
    make captures resolution fallback =
      (checkDisjoint (allEdits captures resolution fallback).toList).map fun _ => {
        edits := (allEdits captures resolution fallback).toList
        unresolved := resolution.unqualified.toList.filter fun c =>
          (resolution.namespaceFor? fallback c.text).isNone } := by
  simp only [make, expectKinds_ok names, expectKinds_ok declarations, bind, Except.bind]
  cases checkDisjoint (allEdits captures resolution fallback).toList <;> rfl

end

/-! ### Plans made from a tree -/

variable {root : Node} {source : List UInt8} {fallback : NamespaceMap}

/-- The edits for a tree, whether or not they overlap. -/
def editsFor (root : Node) (source : List UInt8) (fallback : NamespaceMap) : Ordered Edit.span :=
  allEdits (collect root source) (.ofTree root source) fallback

/-- The edit of a bare name qualifies it or leaves it as it is. -/
def editOf (root : Node) (source : List UInt8) (fallback : NamespaceMap) (m : Node) : Edit :=
  ⟨m.span, match (Resolution.ofTree root source).namespaceFor? fallback (m.text source) with
    | some scope => .qualify scope
    | none => .passThrough⟩

private theorem editOf_of_span_eq {m n : Node} (h : m.span = n.span) :
    editOf root source fallback m = editOf root source fallback n := by
  simp only [editOf, Node.text, h]

private theorem qualification_ofNode (tag : Tag) (m : Node) :
    qualification (.ofTree root source) fallback (.ofNode source tag m) =
      editOf root source fallback m := by
  unfold qualification editOf
  split <;> simp_all [Capture.ofNode]

theorem mem_editsFor {e : Edit} :
    e ∈ (editsFor root source fallback).toList ↔
      (∃ m, Bare root m ∧ editOf root source fallback m = e) ∨
      (¬ ∃ m, Bare root m ∧ m.span = e.span) ∧ ∃ d, Removable root d ∧ ⟨d.span, .delete⟩ = e := by
  have hnames : (∃ c ∈ (Resolution.ofTree root source).unqualified.toList,
      qualification (.ofTree root source) fallback c = e) ↔
      ∃ m, Bare root m ∧ editOf root source fallback m = e := by
    constructor
    · rintro ⟨c, hc, rfl⟩
      obtain ⟨m, tag, bare, rfl⟩ := of_mem_unqualified hc
      exact ⟨m, bare, (qualification_ofNode tag m).symm⟩
    · rintro ⟨m, bare, rfl⟩
      -- the capture with the span of `m` may come from another node, which has the same text
      obtain ⟨c, hc, hspan⟩ := exists_mem_unqualified source bare
      obtain ⟨n, tag, _, rfl⟩ := of_mem_unqualified hc
      refine ⟨_, hc, ?_⟩
      rw [qualification_ofNode, editOf_of_span_eq hspan]
  have hdeletions : (∃ c ∈ deletions (collect root source), deletion c = e) ↔
      ∃ d, Removable root d ∧ ⟨d.span, .delete⟩ = e := by
    constructor
    · rintro ⟨c, hc, rfl⟩
      obtain ⟨d, tag, removable, rfl⟩ := of_mem_deletions hc
      exact ⟨d, removable, rfl⟩
    · rintro ⟨d, removable, rfl⟩
      obtain ⟨c, hc, hspan⟩ := exists_mem_deletions source removable
      exact ⟨c, hc, by rw [deletion, hspan]⟩
  have covered : (∃ c ∈ (Resolution.ofTree root source).unqualified.toList, c.span = e.span) ↔
      ∃ m, Bare root m ∧ m.span = e.span := exists_span_unqualified_iff source
  rw [editsFor, mem_allEdits, hnames, hdeletions, ← covered]
  simp only [ne_eq, not_exists, not_and]

theorem exists_span_editsFor_iff {span : Span} :
    (∃ e ∈ (editsFor root source fallback).toList, e.span = span) ↔
      ∃ n, Edited root n ∧ n.span = span := by
  constructor
  · rintro ⟨e, he, rfl⟩
    rcases mem_editsFor.1 he with ⟨m, bare, rfl⟩ | ⟨_, d, removable, rfl⟩
    · exact ⟨m, .inl bare, rfl⟩
    · exact ⟨d, .inr removable, rfl⟩
  · rintro ⟨n, bare | removable, rfl⟩
    · exact ⟨_, mem_editsFor.2 (.inl ⟨n, bare, rfl⟩), rfl⟩
    · by_cases covered : ∃ m, Bare root m ∧ m.span = n.span
      · obtain ⟨m, bare, hspan⟩ := covered
        exact ⟨_, mem_editsFor.2 (.inl ⟨m, bare, rfl⟩), hspan⟩
      · exact ⟨_, mem_editsFor.2 (.inr ⟨covered, n, removable, rfl⟩), rfl⟩

theorem make_ofTree :
    make (collect root source) (.ofTree root source) fallback =
      (checkDisjoint (editsFor root source fallback).toList).map fun _ => {
        edits := (editsFor root source fallback).toList
        unresolved := (Resolution.ofTree root source).unqualified.toList.filter fun c =>
          ((Resolution.ofTree root source).namespaceFor? fallback c.text).isNone } := by
  apply make_of_kinds
  · intro c hc
    obtain ⟨m, tag, bare, rfl⟩ := of_mem_unqualified hc
    rcases bare.kind with kind | kind <;> simp [Capture.ofNode, nameKinds, kind]
  · intro c hc
    obtain ⟨d, tag, removable, rfl⟩ := of_mem_deletions hc
    simp [Capture.ofNode, declarationKinds, removable.kind]

theorem edits_of_make_ofTree {plan : Plan}
    (h : make (collect root source) (.ofTree root source) fallback = .ok plan) :
    plan.edits = (editsFor root source fallback).toList := by
  rw [make_ofTree] at h
  cases hcheck : checkDisjoint (editsFor root source fallback).toList with
  | error e =>
    rw [hcheck] at h
    cases h
  | ok u =>
    rw [hcheck] at h
    cases h
    rfl

theorem qualify_mem_editsFor_iff {span : Span} {scope : String} :
    ⟨span, .qualify scope⟩ ∈ (editsFor root source fallback).toList ↔
      ∃ m, Bare root m ∧ m.span = span ∧
        (Resolution.ofTree root source).namespaceFor? fallback (m.text source) = some scope := by
  rw [mem_editsFor]
  constructor
  · rintro (⟨m, bare, heq⟩ | ⟨_, d, _, heq⟩)
    · obtain ⟨hspan, haction⟩ := Edit.mk.inj heq
      refine ⟨m, bare, hspan, ?_⟩
      split at haction
      · rename_i scope' hscope
        rw [hscope, Action.qualify.inj haction]
      · cases haction
    · cases heq
  · rintro ⟨m, bare, rfl, hscope⟩
    exact .inl ⟨m, bare, by rw [editOf, hscope]⟩

end Plan

namespace Session

section

variable {parser : Parser} {source : List UInt8} {root : Node} (fallback : NamespaceMap)

private theorem freshTree_start (parsed : parser source = some root) :
    (start parser source fallback).freshTree = .ok root := by
  simp only [freshTree, start, parsed]

theorem take_resolve_start (parsed : parser source = some root) :
    ((start parser source fallback).take resolve).1 = .ok (.ofTree root source) := by
  rw [(answers_resolve (current_start parser source fallback none)).answer]
  simp only [freshResolution, freshCaptures, freshTree_start fallback parsed]
  rfl

theorem take_makePlan_start (parsed : parser source = some root) :
    ((start parser source fallback).take makePlan).1 =
      Plan.make (.collect root source) (.ofTree root source) fallback := by
  rw [(answers_makePlan (current_start parser source fallback none)).answer]
  simp only [freshPlan, freshResolution, freshCaptures, freshTree_start fallback parsed]
  rfl

end

end Session

end UsingRemoval
