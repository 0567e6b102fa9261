import UsingRemoval.Plan
import UsingRemoval.Proofs.Collecting
import UsingRemoval.Proofs.Shapes

/-!
Where the bare names and the removable declarations of a tree are. The captures of a tree are filed,
filtered and merged by span; what is left is described here by the nodes of the tree.
-/

set_option autoImplicit false

namespace UsingRemoval

namespace Survey

/-- Some type name with this span is spelled behind a namespace. -/
def Spelled (root : Node) (span : Span) : Prop :=
  ∃ q ∈ root.preorder, ∃ m, m.span.stop ≠ 0 ∧ (SpellsType q m ∨ SpellsTemplate q m) ∧
    m.span = span

/-- A name written without a namespace: a type name that no qualified shape covers, a called name
or a name beside a stream operator. -/
inductive Bare (root : Node) : Node → Prop where
  | type {m : Node} (hm : m ∈ root.preorder) (stop : m.span.stop ≠ 0)
      (name : m.Is "type_identifier") (unspelled : ¬ Spelled root m.span) : Bare root m
  | called {n m : Node} (hn : n ∈ root.preorder) (stop : m.span.stop ≠ 0) (calls : Calls n m) :
      Bare root m
  | streamed {n m : Node} (hn : n ∈ root.preorder) (stop : m.span.stop ≠ 0)
      (streams : Streams n m) : Bare root m

structure Removable (root d : Node) : Prop where
  mem : d ∈ root.preorder
  stop : d.span.stop ≠ 0
  shape : IsDeclaration d ∨ IsDirective d

def Edited (root n : Node) : Prop :=
  Bare root n ∨ Removable root n

section

variable {root m n d : Node}

theorem Calls.mem_preorder (h : Calls n m) (hn : n ∈ root.preorder) :
    m ∈ root.preorder := by
  cases h with
  | function _ hm _ => exact Node.mem_preorder_of_mem_children hn hm
  | template _ htemplate _ hm _ =>
    have htemplate := Node.mem_preorder_of_mem_children hn htemplate
    exact Node.mem_preorder_of_mem_children htemplate hm

theorem Streams.mem_preorder (h : Streams n m) (hn : n ∈ root.preorder) :
    m ∈ root.preorder := by
  cases h with
  | right _ order _ _ => exact Node.mem_preorder_of_mem_children hn (order.mem (by simp))
  | left _ order _ _ => exact Node.mem_preorder_of_mem_children hn (order.mem (by simp))

theorem Bare.mem_preorder (h : Bare root m) : m ∈ root.preorder := by
  cases h with
  | type hm _ _ _ => exact hm
  | called hn _ calls => exact calls.mem_preorder hn
  | streamed hn _ streams => exact streams.mem_preorder hn

theorem Bare.kind (h : Bare root m) : m.kind = "type_identifier" ∨ m.kind = "identifier" := by
  cases h with
  | type _ _ name _ => exact .inl name.2
  | called _ _ calls =>
    cases calls with
    | function _ _ name => exact .inr name.2.2
    | template _ _ _ _ name => exact .inr name.2.2
  | streamed _ _ streams =>
    cases streams with
    | right _ _ _ name => exact .inr name.2.2
    | left _ _ _ name => exact .inr name.2.2

theorem Edited.mem_preorder (h : Edited root n) : n ∈ root.preorder := by
  rcases h with bare | removable
  · exact bare.mem_preorder
  · exact removable.mem

theorem Removable.kind (h : Removable root d) : d.kind = "using_declaration" := by
  rcases h.shape with shape | shape
  · exact shape.1.2
  · exact shape.1.2

end

end Survey

namespace CaptureSet

open Survey

variable {root : Node} {source : List UInt8} {tag : Tag} {c : Capture}

theorem mem_group {set : CaptureSet} : c ∈ set.group tag ↔ c ∈ set.toList ∧ c.tag = tag := by
  simp [group]

theorem mem_ofList {l : List Capture} :
    c ∈ (ofList l).toList ↔ Ordered.FirstIn Capture.slot l c := by
  rw [ofList, Ordered.mem_foldl_insertNew]
  simp [Ordered.empty]

theorem of_mem_group (h : c ∈ (collect root source).group tag) :
    ∃ n ∈ root.preorder, ∃ m, (∃ s ∈ all, s.Notes n (tag, m)) ∧ c = Capture.ofNode source tag m := by
  obtain ⟨hc, htag⟩ := mem_group.1 h
  obtain ⟨⟨noted, m⟩, hm, heq⟩ := List.mem_map.1 (mem_ofList.1 hc).mem
  subst heq
  cases htag
  obtain ⟨n, hn, hnotes⟩ := mem_notes.1 hm
  exact ⟨n, hn, m, hnotes, rfl⟩

theorem exists_mem_group_ofList_iff {l : List Capture} {span : Span} :
    (∃ c ∈ (ofList l).group tag, c.span = span) ↔ ∃ c ∈ l, c.tag = tag ∧ c.span = span := by
  constructor
  · rintro ⟨c, hc, rfl⟩
    obtain ⟨hc, htag⟩ := mem_group.1 hc
    exact ⟨c, (mem_ofList.1 hc).mem, htag, rfl⟩
  · rintro ⟨x, hx, rfl, rfl⟩
    -- an earlier capture may hold the slot, but not with another span
    obtain ⟨c, hfirst, hslot⟩ := Ordered.exists_firstIn Capture.slot hx
    obtain ⟨htag, hspan⟩ := Slot.mk.inj hslot
    exact ⟨c, mem_group.2 ⟨mem_ofList.2 hfirst, htag⟩, hspan⟩

theorem exists_mem_group_iff {span : Span} :
    (∃ c ∈ (collect root source).group tag, c.span = span) ↔
      ∃ n ∈ root.preorder, ∃ m, (∃ s ∈ all, s.Notes n (tag, m)) ∧ m.span = span := by
  rw [collect, exists_mem_group_ofList_iff]
  constructor
  · rintro ⟨c, hc, rfl, rfl⟩
    obtain ⟨⟨noted, m⟩, hnote, rfl⟩ := List.mem_map.1 hc
    obtain ⟨n, hn, hnotes⟩ := mem_notes.1 hnote
    exact ⟨n, hn, m, hnotes, rfl⟩
  · rintro ⟨n, hn, m, hnotes, rfl⟩
    have hnote : (tag, m) ∈ notes root := mem_notes.2 ⟨n, hn, hnotes⟩
    exact ⟨_, List.mem_map.2 ⟨(tag, m), hnote, rfl⟩, rfl, rfl⟩

theorem mem_qualified {span : Span} :
    span ∈ ((collect root source).group .typeQual ++
      (collect root source).group .typeQualTemplate).map Capture.span ↔ Spelled root span := by
  rw [List.mem_map]
  simp only [List.mem_append, or_and_right, exists_or, exists_mem_group_iff,
    exists_notes_typeQual, exists_notes_typeQualTemplate]
  constructor
  · rintro (⟨q, hq, m, ⟨stop, spells⟩, rfl⟩ | ⟨q, hq, m, ⟨stop, spells⟩, rfl⟩)
    · exact ⟨q, hq, m, stop, .inl spells, rfl⟩
    · exact ⟨q, hq, m, stop, .inr spells, rfl⟩
  · rintro ⟨q, hq, m, stop, spells | spells, rfl⟩
    · exact .inl ⟨q, hq, m, ⟨stop, spells⟩, rfl⟩
    · exact .inr ⟨q, hq, m, ⟨stop, spells⟩, rfl⟩

private theorem mem_candidates :
    c ∈ (collect root source).candidates ↔
      c ∈ (collect root source).group .type ∧ ¬ Spelled root c.span ∨
        c ∈ (collect root source).group .func ∨ c ∈ (collect root source).group .symbol := by
  simp only [candidates, List.mem_append, List.mem_filter, Bool.not_eq_true', ← Bool.not_eq_true,
    List.contains_iff_mem, mem_qualified, or_assoc]

theorem mem_unqualified {set : CaptureSet} :
    c ∈ set.unqualified.toList ↔ Ordered.LastIn Capture.span set.candidates c := by
  rw [unqualified, Ordered.ofList, Ordered.mem_insertMany]
  simp [Ordered.empty]

theorem of_mem_unqualified (h : c ∈ (collect root source).unqualified.toList) :
    ∃ m tag, Bare root m ∧ c = Capture.ofNode source tag m := by
  rcases mem_candidates.1 (mem_unqualified.1 h).mem with ⟨hc, unspelled⟩ | hc | hc
  · obtain ⟨n, hn, m, hnotes, rfl⟩ := of_mem_group hc
    obtain ⟨stop, rfl, name⟩ := exists_notes_type.1 hnotes
    exact ⟨m, _, .type hn stop name unspelled, rfl⟩
  · obtain ⟨n, hn, m, hnotes, rfl⟩ := of_mem_group hc
    obtain ⟨stop, calls⟩ := exists_notes_func.1 hnotes
    exact ⟨m, _, .called hn stop calls, rfl⟩
  · obtain ⟨n, hn, m, hnotes, rfl⟩ := of_mem_group hc
    obtain ⟨stop, streams⟩ := exists_notes_symbol.1 hnotes
    exact ⟨m, _, .streamed hn stop streams, rfl⟩

theorem exists_mem_unqualified (source : List UInt8) {m : Node} (h : Bare root m) :
    ∃ c ∈ (collect root source).unqualified.toList, c.span = m.span := by
  have hcandidate : ∃ c ∈ (collect root source).candidates, c.span = m.span := by
    cases h with
    | type hm stop name unspelled =>
      obtain ⟨c, hc, hspan⟩ :=
        exists_mem_group_iff.2 ⟨m, hm, m, exists_notes_type.2 ⟨stop, rfl, name⟩, rfl⟩
      exact ⟨c, mem_candidates.2 (.inl ⟨hc, hspan ▸ unspelled⟩), hspan⟩
    | called hn stop calls =>
      obtain ⟨c, hc, hspan⟩ :=
        exists_mem_group_iff.2 ⟨_, hn, m, exists_notes_func.2 ⟨stop, calls⟩, rfl⟩
      exact ⟨c, mem_candidates.2 (.inr (.inl hc)), hspan⟩
    | streamed hn stop streams =>
      obtain ⟨c, hc, hspan⟩ :=
        exists_mem_group_iff.2 ⟨_, hn, m, exists_notes_symbol.2 ⟨stop, streams⟩, rfl⟩
      exact ⟨c, mem_candidates.2 (.inr (.inr hc)), hspan⟩
  obtain ⟨x, hx, hspan⟩ := hcandidate
  obtain ⟨c, hlast, hkey⟩ := Ordered.exists_lastIn Capture.span hx
  exact ⟨c, mem_unqualified.2 hlast, hkey.trans hspan⟩

theorem exists_span_unqualified_iff (source : List UInt8) {span : Span} :
    (∃ c ∈ (collect root source).unqualified.toList, c.span = span) ↔
      ∃ m, Bare root m ∧ m.span = span := by
  constructor
  · rintro ⟨c, hc, rfl⟩
    obtain ⟨m, tag, bare, rfl⟩ := of_mem_unqualified hc
    exact ⟨m, bare, rfl⟩
  · rintro ⟨m, bare, rfl⟩
    exact exists_mem_unqualified source bare

end CaptureSet

namespace Plan

open Survey CaptureSet

variable {root : Node} {source : List UInt8} {c : Capture}

theorem of_mem_deletions (h : c ∈ deletions (collect root source)) :
    ∃ d tag, Removable root d ∧ c = Capture.ofNode source tag d := by
  rcases List.mem_append.1 h with hc | hc
  · obtain ⟨n, hn, d, hnotes, rfl⟩ := of_mem_group hc
    obtain ⟨stop, rfl, shape⟩ := exists_notes_usingDecl.1 hnotes
    exact ⟨d, _, ⟨hn, stop, .inl shape⟩, rfl⟩
  · obtain ⟨n, hn, d, hnotes, rfl⟩ := of_mem_group hc
    obtain ⟨stop, rfl, shape⟩ := exists_notes_usingNsDecl.1 hnotes
    exact ⟨d, _, ⟨hn, stop, .inr shape⟩, rfl⟩

theorem exists_mem_deletions (source : List UInt8) {d : Node} (h : Removable root d) :
    ∃ c ∈ deletions (collect root source), c.span = d.span := by
  rcases h.shape with shape | shape
  · obtain ⟨c, hc, hspan⟩ :=
      exists_mem_group_iff.2 ⟨d, h.mem, d, exists_notes_usingDecl.2 ⟨h.stop, rfl, shape⟩, rfl⟩
    exact ⟨c, List.mem_append_left _ hc, hspan⟩
  · obtain ⟨c, hc, hspan⟩ :=
      exists_mem_group_iff.2 ⟨d, h.mem, d, exists_notes_usingNsDecl.2 ⟨h.stop, rfl, shape⟩, rfl⟩
    exact ⟨c, List.mem_append_right _ hc, hspan⟩

end Plan

end UsingRemoval
