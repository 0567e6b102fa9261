import Mathlib.Data.List.Chain
import UsingRemoval.Plan

/-!
When planned edits keep out of each other's way. Only neighbours are compared; in span order that
is enough, because a span that ends before its neighbour begins ends before every later one.
-/

set_option autoImplicit false

namespace UsingRemoval

/-- The edit `a` ends before the edit `b` begins. -/
def Edit.Before (a b : Edit) : Prop := a.span.stop ≤ b.span.start

namespace Span

theorem compare_eq_lt_iff {a b : Span} :
    compare a b = .lt ↔ a.start < b.start ∨ a.start = b.start ∧ a.stop < b.stop := by
  change (compare a.start b.start).then (compare a.stop b.stop) = .lt ↔ _
  rw [Ordering.then_eq_lt, Nat.compare_eq_lt, Nat.compare_eq_eq, Nat.compare_eq_lt]

end Span

namespace Plan

theorem checkDisjoint_ok_iff (edits : List Edit) :
    checkDisjoint edits = .ok () ↔ edits.IsChain Edit.Before := by
  induction edits with
  | nil => simp [checkDisjoint]
  | cons a rest ih =>
    cases rest with
    | nil => simp [checkDisjoint]
    | cons b rest =>
      rw [checkDisjoint, List.isChain_cons_cons, ← ih, Edit.Before]
      by_cases h : b.span.start < a.span.stop
      · simp [h]
      · simp [h, Nat.le_of_not_lt h]

/-- A check that does not pass names the first two neighbours that overlap. -/
theorem exists_first_overlap {edits : List Edit} {e : RemovalError}
    (failed : checkDisjoint edits = .error e) :
    ∃ before first second after, edits = before ++ first :: second :: after ∧
      e = .overlappingEdits first.span second.span ∧ second.span.start < first.span.stop ∧
      (before ++ [first]).IsChain Edit.Before := by
  induction edits with
  | nil => cases failed
  | cons a rest ih =>
    cases rest with
    | nil => cases failed
    | cons b rest =>
      rw [checkDisjoint] at failed
      split at failed
      · rename_i hlt
        cases failed
        exact ⟨[], a, b, rest, rfl, rfl, hlt, .singleton a⟩
      · rename_i hle
        obtain ⟨before, first, second, after, split, named, overlap, chain⟩ := ih failed
        refine ⟨a :: before, first, second, after, by rw [split]; rfl, named, overlap, ?_⟩
        -- the new neighbour of `a` is the first edit of the pair or the first one before it
        rw [List.cons_append, List.isChain_cons]
        refine ⟨?_, chain⟩
        intro c hc
        have hb : b = c := by
          have heads := congrArg List.head? split
          cases before with
          | nil => simpa using heads.trans hc
          | cons d before => simpa using heads.trans hc
        rw [← hb]
        exact Nat.le_of_not_lt hle

theorem checkDisjoint_ne_ok {edits : List Edit} (h : checkDisjoint edits ≠ .ok ()) :
    ∃ first second, checkDisjoint edits = .error (.overlappingEdits first second) := by
  cases check : checkDisjoint edits with
  | ok => exact absurd check h
  | error e =>
    obtain ⟨_, first, second, _, _, rfl, _⟩ := exists_first_overlap check
    exact ⟨first.span, second.span, rfl⟩

/-- Where no edit begins before an earlier one, edits that keep clear of their neighbours keep clear
of all others. -/
theorem pairwise_before_of_starts {edits : List Edit}
    (starts : edits.Pairwise fun a b => a.span.start ≤ b.span.start)
    (chain : edits.IsChain Edit.Before) : edits.Pairwise Edit.Before := by
  induction edits with
  | nil => exact .nil
  | cons a rest ih =>
    obtain ⟨_, tailStarts⟩ := List.pairwise_cons.1 starts
    cases rest with
    | nil => exact List.pairwise_singleton _ _
    | cons b rest =>
      obtain ⟨hab, tailChain⟩ := List.isChain_cons_cons.1 chain
      refine List.pairwise_cons.2 ⟨fun c hc => ?_, ih tailStarts tailChain⟩
      rcases List.mem_cons.1 hc with rfl | hc
      · exact hab
      · have hstart : b.span.start ≤ c.span.start := (List.pairwise_cons.1 tailStarts).1 c hc
        exact hab.trans hstart

theorem isChain_before_iff_pairwise {edits : List Edit}
    (sorted : edits.Pairwise fun a b => compare a.span b.span = .lt) :
    edits.IsChain Edit.Before ↔ edits.Pairwise Edit.Before := by
  refine ⟨pairwise_before_of_starts (sorted.imp fun {a b} hlt => ?_), List.Pairwise.isChain⟩
  rw [Span.compare_eq_lt_iff] at hlt
  omega

theorem isChain_before_iff_apart {edits : List Edit}
    (sorted : edits.Pairwise fun a b => compare a.span b.span = .lt)
    (forward : ∀ e ∈ edits, e.span.start ≤ e.span.stop) :
    edits.IsChain Edit.Before ↔
      ∀ a ∈ edits, ∀ b ∈ edits, a.span ≠ b.span → a.Before b ∨ b.Before a := by
  rw [isChain_before_iff_pairwise sorted]
  constructor
  · intro before a ha b hb hne
    have either : edits.Pairwise fun a b => a.Before b ∨ b.Before a := before.imp .inl
    have : Std.Symm fun a b : Edit => a.Before b ∨ b.Before a := ⟨fun _ _ => Or.symm⟩
    exact either.forall ha hb fun heq => hne (congrArg Edit.span heq)
  · intro apart
    refine sorted.imp_of_mem fun {a b} ha hb hlt => ?_
    have hforward := forward b hb
    have hne : a.span ≠ b.span := by
      intro heq
      simp [heq] at hlt
    rcases apart a ha b hb hne with h | h
    · exact h
    · -- `b` does not begin before `a`, so it is empty and stands where `a` begins
      rw [Span.compare_eq_lt_iff] at hlt
      simp only [Edit.Before] at h ⊢
      omega

/-- For edits in span order, also with spans that repeat, the check of neighbours is a check of all
pairs. Where it fails, it names the first neighbours of which one ends after the next begins, and
all edits up to the first of the two keep clear of each other. -/
theorem checkDisjoint_compares_all (edits : List Edit)
    (sorted : edits.Pairwise fun a b =>
      a.span.start < b.span.start ∨ a.span.start = b.span.start ∧ a.span.stop ≤ b.span.stop) :
    (checkDisjoint edits = .ok () ↔ edits.Pairwise fun a b => a.span.stop ≤ b.span.start) ∧
    ∀ e, checkDisjoint edits = .error e →
      ∃ before first second after, edits = before ++ first :: second :: after ∧
        e = .overlappingEdits first.span second.span ∧ second.span.start < first.span.stop ∧
        (before ++ [first]).Pairwise fun a b => a.span.stop ≤ b.span.start := by
  have starts : edits.Pairwise fun a b => a.span.start ≤ b.span.start := by
    refine sorted.imp fun {a b} hab => ?_
    omega
  constructor
  · rw [checkDisjoint_ok_iff]
    exact ⟨pairwise_before_of_starts starts, List.Pairwise.isChain⟩
  · intro e failed
    obtain ⟨before, first, second, after, split, named, overlap, chain⟩ :=
      exists_first_overlap failed
    have initial : (before ++ [first]).Sublist edits := by
      rw [split, List.append_cons before first (second :: after)]
      exact List.sublist_append_left _ _
    exact ⟨before, first, second, after, split, named, overlap,
      pairwise_before_of_starts (starts.sublist initial) chain⟩

theorem checkDisjoint_compares_all_behindEmpty :
    let edits : List Edit := [⟨⟨0, 0⟩, .passThrough⟩, ⟨⟨0, 0⟩, .delete⟩, ⟨⟨0, 4⟩, .qualify "n"⟩,
      ⟨⟨4, 4⟩, .passThrough⟩, ⟨⟨4, 9⟩, .delete⟩, ⟨⟨5, 5⟩, .passThrough⟩, ⟨⟨6, 8⟩, .passThrough⟩]
    (edits.Pairwise fun a b =>
      a.span.start < b.span.start ∨ a.span.start = b.span.start ∧ a.span.stop ≤ b.span.stop) ∧
    checkDisjoint edits = .error (.overlappingEdits ⟨4, 9⟩ ⟨5, 5⟩) ∧
    ¬ (edits.Pairwise fun a b => a.span.stop ≤ b.span.start) ∧
    (edits.take 5).Pairwise fun a b => a.span.stop ≤ b.span.start := by
  intro edits
  have sorted : edits.Pairwise fun a b =>
      a.span.start < b.span.start ∨ a.span.start = b.span.start ∧ a.span.stop ≤ b.span.stop := by
    decide
  have failed : checkDisjoint edits = .error (.overlappingEdits ⟨4, 9⟩ ⟨5, 5⟩) := rfl
  obtain ⟨passes_iff, _⟩ := checkDisjoint_compares_all edits sorted
  refine ⟨sorted, failed, fun disjoint => ?_, by decide⟩
  rw [passes_iff.2 disjoint] at failed
  cases failed

end Plan

end UsingRemoval
