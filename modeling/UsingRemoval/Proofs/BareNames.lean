import UsingRemoval.Proofs.Candidates
import UsingRemoval.Proofs.Disjoint

/-!
Which captures the names without a namespace are. Three groups are merged by span: the type names
that no qualified shape spells, the called names and the names beside stream operators. A span that
several groups hold goes to the last of them.
-/

set_option autoImplicit false

namespace UsingRemoval.CaptureSet

open Survey

section

variable {set : CaptureSet} {tag : Tag} {c d : Capture}

theorem eq_of_mem_group (hc : c ∈ set.group tag) (hd : d ∈ set.group tag) (h : c.span = d.span) :
    c = d := by
  obtain ⟨hc, htag⟩ := mem_group.1 hc
  obtain ⟨hd, htag'⟩ := mem_group.1 hd
  exact set.eq_of_key_eq hc hd (congrArg₂ Slot.mk (htag.trans htag'.symm) h)

private theorem lastIn_group_iff :
    Ordered.LastIn Capture.span (set.group tag) c ↔ c ∈ set.group tag :=
  Ordered.lastIn_iff_mem fun _ ha _ hb => eq_of_mem_group ha hb

theorem mem_unqualified_iff :
    c ∈ set.unqualified.toList ↔
      c ∈ set.group .symbol ∨
      c ∈ set.group .func ∧ (∀ s ∈ set.group .symbol, s.span ≠ c.span) ∨
      c ∈ set.group .type ∧
        c.span ∉ (set.group .typeQual ++ set.group .typeQualTemplate).map Capture.span ∧
        (∀ f ∈ set.group .func, f.span ≠ c.span) ∧ ∀ s ∈ set.group .symbol, s.span ≠ c.span := by
  let qualified := (set.group .typeQual ++ set.group .typeQualTemplate).map Capture.span
  have hcandidates : set.candidates =
      (set.group .type).filter (fun c => !qualified.contains c.span) ++ set.group .func ++
        set.group .symbol := rfl
  have htypes : Ordered.LastIn Capture.span
      ((set.group .type).filter fun c => !qualified.contains c.span) c ↔
        c ∈ set.group .type ∧ c.span ∉ qualified := by
    rw [Ordered.lastIn_iff_mem, List.mem_filter]
    · simp
    · intro a ha b hb
      exact eq_of_mem_group (List.mem_filter.1 ha).1 (List.mem_filter.1 hb).1
  rw [mem_unqualified, hcandidates, Ordered.lastIn_append, Ordered.lastIn_append, htypes,
    lastIn_group_iff, lastIn_group_iff, or_and_right, and_assoc, and_assoc]

end

/-- The names without a namespace stand in strict span order and have exactly the spans of the bare
names of the tree. Where several groups hold a span, the capture of a name beside a stream operator
is kept, else that of a called name, else that of a type name. The groups have the spans of just
these names. -/
theorem unqualified_exactly (root : Node) (source : List UInt8) :
    let set := collect root source
    (set.unqualified.toList.Pairwise fun a b =>
      a.span.start < b.span.start ∨ a.span.start = b.span.start ∧ a.span.stop < b.span.stop) ∧
    (∀ span, (∃ c ∈ set.unqualified.toList, c.span = span) ↔ ∃ m, Bare root m ∧ m.span = span) ∧
    (∀ c, c ∈ set.unqualified.toList ↔
      c ∈ set.group .symbol ∨
      c ∈ set.group .func ∧ (∀ s ∈ set.group .symbol, s.span ≠ c.span) ∨
      c ∈ set.group .type ∧ ¬ Spelled root c.span ∧
        (∀ f ∈ set.group .func, f.span ≠ c.span) ∧ ∀ s ∈ set.group .symbol, s.span ≠ c.span) ∧
    ∀ span,
      ((∃ c ∈ set.group .symbol, c.span = span) ↔
        ∃ n ∈ root.preorder, ∃ m, m.span.stop ≠ 0 ∧ Streams n m ∧ m.span = span) ∧
      ((∃ c ∈ set.group .func, c.span = span) ↔
        ∃ n ∈ root.preorder, ∃ m, m.span.stop ≠ 0 ∧ Calls n m ∧ m.span = span) ∧
      ((∃ c ∈ set.group .type, c.span = span) ↔
        ∃ m ∈ root.preorder, m.span.stop ≠ 0 ∧ m.Is "type_identifier" ∧ m.span = span) := by
  intro set
  refine ⟨set.unqualified.sorted.imp Span.compare_eq_lt_iff.1,
    fun span => exists_span_unqualified_iff source, fun c => ?_, fun span => ⟨?_, ?_, ?_⟩⟩
  · rw [mem_unqualified_iff, mem_qualified]
  · simp only [set, exists_mem_group_iff, exists_notes_symbol, and_assoc]
  · simp only [set, exists_mem_group_iff, exists_notes_func, and_assoc]
  · simp only [set, exists_mem_group_iff, exists_notes_type, and_assoc]
    constructor
    · rintro ⟨_, hn, m, stop, rfl, name, hspan⟩
      exact ⟨m, hn, stop, name, hspan⟩
    · rintro ⟨m, hm, stop, name, hspan⟩
      exact ⟨m, hm, m, stop, rfl, name, hspan⟩

end UsingRemoval.CaptureSet
