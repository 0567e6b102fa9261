import Mathlib.Logic.Relation
import UsingRemoval.Proofs.Segments

/-!
Which lists of edits can be applied at all. Applying takes one edit after another in the order of the
list, and with edits in disorder the cursor goes back and forth. Nothing but an edit that runs
backwards or leaves the source can stop it: wherever the cursor stands, it stands within the source,
so the gap before an edit can be copied whenever the edit itself can be taken.
-/

set_option autoImplicit false

namespace UsingRemoval.Edit

variable {source : List UInt8}

/-- One turn: with the cursor at an offset, the gap before the next edit and the bytes it covers are
taken from the source, and the cursor goes to where copying resumes. -/
inductive Turn (source : List UInt8) : Nat × List Edit → Nat × List Edit → Prop where
  | edit {cursor : Nat} {e : Edit} {es : List Edit} {gap covered : List UInt8}
      (copied : (if cursor < e.span.start then Span.slice? ⟨cursor, e.span.start⟩ source
        else some []) = some gap)
      (taken : e.span.slice? source = some covered) :
      Turn source (cursor, e :: es) (e.resume source, es)

/-- Applying the edits gets to the cursor with the rest of the edits still to take. -/
def Reaches (source : List UInt8) (edits : List Edit) (cursor : Nat) (rest : List Edit) : Prop :=
  Relation.ReflTransGen (Turn source) (0, edits) (cursor, rest)

theorem slice?_of_outside {e : Edit} (outside : ¬ e.Within source) :
    e.span.slice? source = none :=
  if_neg outside

theorem within_of_slice? {e : Edit} {covered : List UInt8}
    (taken : e.span.slice? source = some covered) : e.Within source := by
  by_contra outside
  rw [slice?_of_outside outside] at taken
  cases taken

theorem turn_of_within {e : Edit} (h : e.Within source) (cursor : Nat) (es : List Edit) :
    Turn source (cursor, e :: es) (e.resume source, es) :=
  .edit (gap_eq_slice h cursor) (slice?_of_within h)

theorem resume_le_length {e : Edit} (h : e.Within source) : e.resume source ≤ source.length := by
  have hstop := h.2
  have hrun : lineBreaksAt source e.span.stop ≤ source.length - e.span.stop := by
    rw [lineBreaksAt, ← List.length_drop]
    exact (List.takeWhile_sublist _).length_le
  unfold resume
  split
  · omega
  · exact hstop

theorem applyFrom_of_outside {e : Edit} (outside : ¬ e.Within source) (cursor : Nat)
    (es : List Edit) : applyFrom source cursor (e :: es) = none := by
  rw [applyFrom, slice?_of_outside outside]
  split
  · cases Span.slice? ⟨cursor, e.span.start⟩ source <;> rfl
  · rfl

theorem applyFrom_eq_none_iff (cursor : Nat) (edits : List Edit) :
    applyFrom source cursor edits = none ↔ ∃ e ∈ edits, ¬ e.Within source := by
  induction edits generalizing cursor with
  | nil => simp [applyFrom]
  | cons e es ih =>
    rw [List.exists_mem_cons_iff]
    by_cases h : e.Within source
    · rw [applyFrom_cons h, Option.map_eq_none_iff, ih]
      simp [h]
    · simp [applyFrom_of_outside h, h]

/-! ### Turns and runs -/

theorem Turn.cursor_le {state : Nat × List Edit} {cursor : Nat} {rest : List Edit}
    (turn : Turn source state (cursor, rest)) : cursor ≤ source.length := by
  cases turn with
  | edit _ taken => exact resume_le_length (within_of_slice? taken)

theorem Turn.applyFrom_eq {state next : Nat × List Edit} (turn : Turn source state next) :
    ∃ written, applyFrom source state.1 state.2 =
      (applyFrom source next.1 next.2).map (written ++ ·) := by
  cases turn with
  | @edit cursor e es _ _ _ taken =>
    exact ⟨_, applyFrom_cons (within_of_slice? taken) cursor es⟩

theorem Reaches.cursor_le {edits rest : List Edit} {cursor : Nat}
    (reached : Reaches source edits cursor rest) : cursor ≤ source.length := by
  cases reached with
  | refl => exact Nat.zero_le _
  | tail _ turn => exact turn.cursor_le

theorem Reaches.applyAll_eq {edits rest : List Edit} {cursor : Nat}
    (reached : Reaches source edits cursor rest) :
    ∃ written, applyAll source edits = (applyFrom source cursor rest).map (written ++ ·) := by
  have goes_on (state : Nat × List Edit)
      (run : Relation.ReflTransGen (Turn source) (0, edits) state) :
      ∃ written, applyAll source edits =
        (applyFrom source state.1 state.2).map (written ++ ·) := by
    induction run with
    | refl => exact ⟨[], by simp [applyAll]⟩
    | tail _ turn ih =>
      obtain ⟨before, so_far⟩ := ih
      obtain ⟨written, turned⟩ := turn.applyFrom_eq
      refine ⟨before ++ written, ?_⟩
      rw [so_far, turned, Option.map_map]
      simp [Function.comp_def]
  exact goes_on (cursor, rest) reached

theorem exists_run {edits : List Edit} (inside : ∀ e ∈ edits, e.Within source) (cursor : Nat) :
    ∃ last, Relation.ReflTransGen (Turn source) (cursor, edits) (last, []) := by
  induction edits generalizing cursor with
  | nil => exact ⟨cursor, .refl⟩
  | cons e es ih =>
    obtain ⟨he, hes⟩ := List.forall_mem_cons.1 inside
    obtain ⟨last, run⟩ := ih hes (e.resume source)
    exact ⟨last, .head (turn_of_within he cursor es) run⟩

/-- Edits in any order and with any spans apply exactly if none of them runs backwards or leaves the
source. If they apply, all of them are taken. However far applying gets, the cursor is within the
source, and the output is what was written up to there and what applying gives from there on. -/
theorem applyAll_refuses_exactly (source : List UInt8) (edits : List Edit) :
    (applyAll source edits = none ↔
      ∃ e ∈ edits, e.span.stop < e.span.start ∨ source.length < e.span.stop) ∧
    (applyAll source edits ≠ none → ∃ cursor, Reaches source edits cursor []) ∧
    ∀ cursor rest, Reaches source edits cursor rest →
      cursor ≤ source.length ∧
        ∃ written, applyAll source edits =
          (applyFrom source cursor rest).map (written ++ ·) := by
  refine ⟨?_, ?_, fun cursor rest reached => ⟨reached.cursor_le, reached.applyAll_eq⟩⟩
  · have outside (e : Edit) : ¬ e.Within source ↔
        e.span.stop < e.span.start ∨ source.length < e.span.stop := by
      rw [Within]
      omega
    rw [applyAll, applyFrom_eq_none_iff]
    simp only [outside]
  · intro applies
    rw [applyAll, ne_eq, applyFrom_eq_none_iff] at applies
    push Not at applies
    exact exists_run applies 0

-- The second edit takes the cursor back, and what follows it is copied once more.
example : applyAll [0x61, 0x62, 0x63] [⟨⟨2, 3⟩, .passThrough⟩, ⟨⟨0, 1⟩, .passThrough⟩] =
    some [0x61, 0x62, 0x63, 0x61, 0x62, 0x63] := by decide

end UsingRemoval.Edit
