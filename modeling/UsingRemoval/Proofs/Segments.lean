import UsingRemoval.Proofs.Disjoint

/-!
What applying edits leaves of a source, piece by piece. The output is the source up to the first
edit, and then for each edit its body and the gap up to the next edit; a gap after a deletion is
without its leading line breaks. Hence each byte that no deletion takes is copied once and in order.
-/

set_option autoImplicit false

namespace UsingRemoval.Edit

/-- The edit covers bytes of the source and does not run backwards. -/
def Within (source : List UInt8) (e : Edit) : Prop :=
  e.span.start ≤ e.span.stop ∧ e.span.stop ≤ source.length

instance (source : List UInt8) (e : Edit) : Decidable (e.Within source) :=
  inferInstanceAs (Decidable (_ ∧ _))

/-- Where the gap before some edits ends: at the first of them, or else with the source. -/
def gapStop (source : List UInt8) : List Edit → Nat
  | [] => source.length
  | e :: _ => e.span.start

/-- What stays of the gap right after an edit. -/
def keepGap (e : Edit) (gap : List UInt8) : List UInt8 :=
  match e.action with
  | .delete => gap.dropWhile isLineBreak
  | _ => gap

/-- The bodies of the edits, each with what stays of the gap after it. -/
def segments (source : List UInt8) : List Edit → List UInt8
  | [] => []
  | e :: es =>
    e.body (e.span.slice source) ++
      e.keepGap (Span.slice ⟨e.span.stop, gapStop source es⟩ source) ++ segments source es

/-! ### The output in segments -/

private theorem dropWhile_take {α : Type} (p : α → Bool) (l : List α) (n : Nat) :
    (l.take n).dropWhile p =
      (l.drop (l.takeWhile p).length).take (n - (l.takeWhile p).length) := by
  induction l generalizing n with
  | nil => simp
  | cons a l ih =>
    by_cases h : p a
    · cases n with
      | zero => simp
      | succ n => simp [h, ih, Nat.add_sub_add_right]
    · cases n with
      | zero => simp
      | succ n => simp [h]

private theorem slice_after_lineBreaks (source : List UInt8) (start stop : Nat) :
    Span.slice ⟨start + lineBreaksAt source start, stop⟩ source =
      (Span.slice ⟨start, stop⟩ source).dropWhile isLineBreak := by
  simp only [Span.slice, lineBreaksAt]
  rw [dropWhile_take, List.drop_drop, Nat.sub_sub]

theorem slice_resume (source : List UInt8) (e : Edit) (stop : Nat) :
    Span.slice ⟨e.resume source, stop⟩ source =
      e.keepGap (Span.slice ⟨e.span.stop, stop⟩ source) := by
  cases h : e.action with
  | delete =>
    simp only [resume, keepGap, h]
    exact slice_after_lineBreaks source e.span.stop stop
  | qualify scope => simp only [resume, keepGap, h]
  | passThrough => simp only [resume, keepGap, h]

theorem slice?_of_within {source : List UInt8} {e : Edit} (h : e.Within source) :
    e.span.slice? source = some (e.span.slice source) :=
  if_pos h

theorem gap_eq_slice {source : List UInt8} {e : Edit} (h : e.Within source)
    (cursor : Nat) :
    (if cursor < e.span.start then Span.slice? ⟨cursor, e.span.start⟩ source else some []) =
      some (Span.slice ⟨cursor, e.span.start⟩ source) := by
  split
  · rename_i hlt
    exact if_pos ⟨hlt.le, h.1.trans h.2⟩
  · rename_i hle
    have : e.span.start - cursor = 0 := by omega
    simp [Span.slice, this]

theorem applyFrom_cons {source : List UInt8} {e : Edit} (h : e.Within source)
    (cursor : Nat) (es : List Edit) :
    applyFrom source cursor (e :: es) =
      (applyFrom source (e.resume source) es).map fun rest =>
        Span.slice ⟨cursor, e.span.start⟩ source ++ e.body (e.span.slice source) ++ rest := by
  have hgap := gap_eq_slice h cursor
  rw [applyFrom, slice?_of_within h]
  split
  · rename_i hlt
    rw [if_pos hlt] at hgap
    rw [hgap]
    cases applyFrom source (e.resume source) es <;> rfl
  · rename_i hle
    rw [if_neg hle] at hgap
    rw [← Option.some.inj hgap]
    cases applyFrom source (e.resume source) es <;> rfl

/-- From any cursor on, the output is the rest of the gap and then the segments. The cursor may
already be behind the next edit, when a deletion has skipped line breaks under it. -/
theorem applyFrom_eq_segments {source : List UInt8} {edits : List Edit}
    (inside : ∀ e ∈ edits, e.Within source) (cursor : Nat) :
    applyFrom source cursor edits =
      some (Span.slice ⟨cursor, gapStop source edits⟩ source ++ segments source edits) := by
  induction edits generalizing cursor with
  | nil =>
    have hlen : (source.drop cursor).length ≤ source.length - cursor := by simp
    simp [applyFrom, segments, gapStop, Span.slice, List.take_of_length_le hlen]
  | cons e es ih =>
    obtain ⟨he, hes⟩ := List.forall_mem_cons.1 inside
    rw [applyFrom_cons he, ih hes, slice_resume]
    simp [segments, gapStop]

/-! ### Where each byte of the output comes from -/

/-- A byte of the output: taken from an offset of the source, or written by an edit. -/
inductive Piece where
  | copied (offset : Nat)
  | written (byte : UInt8)

namespace Piece

/-- The byte that a piece stands for. -/
def byte? (source : List UInt8) : Piece → Option UInt8
  | copied offset => source[offset]?
  | written byte => some byte

def offset? : Piece → Option Nat
  | copied offset => some offset
  | written _ => none

/-- The byte of a piece that is not taken from the source. -/
def written? : Piece → Option UInt8
  | copied _ => none
  | written byte => some byte

def span (s : Span) : List Piece :=
  (List.range' s.start (s.stop - s.start)).map copied

end Piece

/-- What an edit writes in front of the bytes it covers. -/
def qualifier (e : Edit) : List UInt8 :=
  match e.action with
  | .qualify scope => Utf8.encode scope ++ Utf8.encode "::"
  | _ => []

def kept (e : Edit) : List Piece :=
  match e.action with
  | .delete => []
  | _ => Piece.span e.span

def piecesFrom (source : List UInt8) : List Edit → List Piece
  | [] => []
  | e :: es =>
    e.qualifier.map Piece.written ++ e.kept ++
      Piece.span ⟨e.resume source, gapStop source es⟩ ++ piecesFrom source es

def pieces (source : List UInt8) (edits : List Edit) : List Piece :=
  Piece.span ⟨0, gapStop source edits⟩ ++ piecesFrom source edits

/-- A deletion covers the offset, or its line breaks do before the next edit begins. -/
def Dropped (source : List UInt8) : List Edit → Nat → Prop
  | [], _ => False
  | e :: es, offset =>
    (e.action = .delete ∧ e.span.start ≤ offset ∧
      (offset < e.span.stop ∨
        offset < e.span.stop + lineBreaksAt source e.span.stop ∧ offset < gapStop source es)) ∨
    Dropped source es offset

theorem gapStop_le {source : List UInt8} {edits : List Edit}
    (inside : ∀ e ∈ edits, e.Within source) : gapStop source edits ≤ source.length := by
  cases edits with
  | nil => exact le_rfl
  | cons e es =>
    have he := inside e List.mem_cons_self
    exact he.1.trans he.2

theorem stop_le_gapStop {source : List UInt8} {e : Edit} {es : List Edit}
    (he : e.Within source) (chain : (e :: es).IsChain Before) :
    e.span.stop ≤ gapStop source es := by
  cases es with
  | nil => exact he.2
  | cons d es => exact (List.isChain_cons_cons.1 chain).1

theorem pairwise_before_of_isChain {source : List UInt8} {edits : List Edit}
    (inside : ∀ e ∈ edits, e.Within source) (chain : edits.IsChain Before) :
    edits.Pairwise Before := by
  induction edits with
  | nil => exact .nil
  | cons a rest ih =>
    obtain ⟨_, hrest⟩ := List.forall_mem_cons.1 inside
    have later := ih hrest chain.of_cons
    cases rest with
    | nil => exact List.pairwise_singleton _ _
    | cons b rest =>
      have hab : a.span.stop ≤ b.span.start := (List.isChain_cons_cons.1 chain).1
      have hb : b.span.start ≤ b.span.stop := (hrest b List.mem_cons_self).1
      refine List.pairwise_cons.2 ⟨?_, later⟩
      intro c hc
      rcases List.mem_cons.1 hc with rfl | hc
      · exact hab
      · have hbc : b.span.stop ≤ c.span.start := (List.pairwise_cons.1 later).1 c hc
        exact hab.trans (hb.trans hbc)

theorem stop_le_resume (source : List UInt8) (e : Edit) :
    e.span.stop ≤ e.resume source := by
  unfold resume
  split <;> omega

theorem resume_of_delete (source : List UInt8) {e : Edit} (h : e.action = .delete) :
    e.resume source = e.span.stop + lineBreaksAt source e.span.stop := by
  simp [resume, h]

theorem resume_of_ne_delete (source : List UInt8) {e : Edit} (h : e.action ≠ .delete) :
    e.resume source = e.span.stop := by
  unfold resume
  split
  · contradiction
  · rfl

private theorem map_byte?_span {source : List UInt8} {s : Span} (h : s.stop ≤ source.length) :
    (Piece.span s).map (Piece.byte? source) = (s.slice source).map some := by
  apply List.ext_getElem
  · simp only [Piece.span, Span.slice, List.length_map, List.length_range', List.length_take,
      List.length_drop]
    omega
  · intro i hi _
    have hlt : s.start + i < source.length := by
      simp only [Piece.span, List.length_map, List.length_range'] at hi
      omega
    simp [Piece.span, Span.slice, Piece.byte?, hlt]

private theorem map_byte?_body {source : List UInt8} {e : Edit} (h : e.Within source) :
    (e.qualifier.map Piece.written ++ e.kept).map (Piece.byte? source) =
      (e.body (e.span.slice source)).map some := by
  have hwritten (l : List UInt8) :
      (l.map Piece.written).map (Piece.byte? source) = l.map some := by
    simp [Piece.byte?, Function.comp_def]
  cases ha : e.action with
  | delete => simp [qualifier, kept, body, ha]
  | qualify scope =>
    simp only [qualifier, kept, body, ha, List.map_append, hwritten, map_byte?_span h.2]
  | passThrough => simp [qualifier, kept, body, ha, map_byte?_span h.2]

private theorem map_byte?_piecesFrom {source : List UInt8} {edits : List Edit}
    (inside : ∀ e ∈ edits, e.Within source) :
    (piecesFrom source edits).map (Piece.byte? source) =
      (segments source edits).map some := by
  induction edits with
  | nil => rfl
  | cons e es ih =>
    obtain ⟨he, hes⟩ := List.forall_mem_cons.1 inside
    rw [piecesFrom, segments, List.map_append, List.map_append, map_byte?_body he,
      map_byte?_span (gapStop_le hes), slice_resume, ih hes, List.map_append, List.map_append]

theorem map_byte?_pieces {source : List UInt8} {edits : List Edit}
    (inside : ∀ e ∈ edits, e.Within source) :
    (pieces source edits).map (Piece.byte? source) =
      (Span.slice ⟨0, gapStop source edits⟩ source ++ segments source edits).map some := by
  rw [pieces, List.map_append, map_byte?_span (gapStop_le inside), map_byte?_piecesFrom inside,
    List.map_append]

private theorem written?_span (s : Span) : (Piece.span s).filterMap Piece.written? = [] := by
  simp [Piece.span, Piece.written?, List.filterMap_map]

private theorem offset?_span (s : Span) :
    (Piece.span s).filterMap Piece.offset? = List.range' s.start (s.stop - s.start) := by
  simp [Piece.span, Piece.offset?, List.filterMap_map, Function.comp_def]

theorem written?_pieces (source : List UInt8) (edits : List Edit) :
    (pieces source edits).filterMap Piece.written? = edits.flatMap qualifier := by
  have hkept (e : Edit) : e.kept.filterMap Piece.written? = [] := by
    unfold kept
    split
    · rfl
    · exact written?_span e.span
  have hwritten (l : List UInt8) : (l.map Piece.written).filterMap Piece.written? = l := by
    simp [Piece.written?, List.filterMap_map, Function.comp_def]
  rw [pieces, List.filterMap_append, written?_span, List.nil_append]
  induction edits with
  | nil => rfl
  | cons e es ih =>
    simp only [piecesFrom, List.filterMap_append, hwritten, hkept, written?_span, ih,
      List.append_nil, List.flatMap_cons]

private theorem offset?_written (l : List UInt8) :
    (l.map Piece.written).filterMap Piece.offset? = [] := by
  simp [Piece.offset?, List.filterMap_map]

private theorem Dropped.gapStop_le_offset {source : List UInt8} {edits : List Edit} {offset : Nat}
    (inside : ∀ e ∈ edits, e.Within source) (chain : edits.IsChain Before)
    (h : Dropped source edits offset) : gapStop source edits ≤ offset := by
  induction edits with
  | nil => exact h.elim
  | cons e es ih =>
    obtain ⟨he, hes⟩ := List.forall_mem_cons.1 inside
    rcases h with ⟨_, hstart, _⟩ | h
    · exact hstart
    · have hnext := ih hes chain.of_cons h
      have hstop := stop_le_gapStop he chain
      exact he.1.trans (hstop.trans hnext)

private theorem mem_offset?_kept (e : Edit) (offset : Nat) :
    offset ∈ e.kept.filterMap Piece.offset? ↔
      e.action ≠ .delete ∧ e.span.start ≤ offset ∧ offset < e.span.stop := by
  unfold kept
  cases ha : e.action with
  | delete => simp
  | qualify scope => simp only [offset?_span, List.mem_range'_1]; grind
  | passThrough => simp only [offset?_span, List.mem_range'_1]; grind

private theorem mem_offset?_piecesFrom {source : List UInt8} {edits : List Edit}
    (inside : ∀ e ∈ edits, e.Within source) (chain : edits.IsChain Before) (offset : Nat) :
    offset ∈ (piecesFrom source edits).filterMap Piece.offset? ↔
      gapStop source edits ≤ offset ∧ offset < source.length ∧ ¬ Dropped source edits offset := by
  induction edits with
  | nil => simp [piecesFrom, gapStop, Dropped]
  | cons e es ih =>
    obtain ⟨he, hes⟩ := List.forall_mem_cons.1 inside
    have hstop := stop_le_gapStop he chain
    have hlen := gapStop_le hes
    have hlater : Dropped source es offset → gapStop source es ≤ offset :=
      Dropped.gapStop_le_offset hes chain.of_cons
    simp only [piecesFrom, List.filterMap_append, offset?_written, List.nil_append, List.mem_append,
      mem_offset?_kept, offset?_span, List.mem_range'_1, ih hes chain.of_cons, Dropped]
    change _ ↔ e.span.start ≤ offset ∧ _
    have hstart := he.1
    by_cases hdrop : Dropped source es offset
    · have hafter := hlater hdrop
      simp only [hdrop, not_true, and_false, or_true, or_false, iff_false]
      omega
    · by_cases hdel : e.action = .delete
      · simp only [hdrop, hdel, resume_of_delete source hdel, ne_eq, not_true, not_false_eq_true,
          false_and, false_or, true_and, and_true, or_false]
        omega
      · simp only [hdrop, hdel, resume_of_ne_delete source hdel, ne_eq, not_false_eq_true,
          false_and, true_and, and_true, or_false]
        omega

private theorem pairwise_offset?_kept (e : Edit) :
    (e.kept.filterMap Piece.offset?).Pairwise (· < ·) := by
  unfold kept
  split
  · exact .nil
  · rw [offset?_span]
    exact List.pairwise_lt_range'

private theorem pairwise_offset?_piecesFrom {source : List UInt8} {edits : List Edit}
    (inside : ∀ e ∈ edits, e.Within source) (chain : edits.IsChain Before) :
    ((piecesFrom source edits).filterMap Piece.offset?).Pairwise (· < ·) := by
  induction edits with
  | nil => exact .nil
  | cons e es ih =>
    obtain ⟨he, hes⟩ := List.forall_mem_cons.1 inside
    have hstop := stop_le_gapStop he chain
    have hresume := stop_le_resume source e
    simp only [piecesFrom, List.filterMap_append, offset?_written, List.nil_append,
      List.append_assoc, List.pairwise_append, offset?_span]
    -- the covered bytes, the gap and the later pieces lie in consecutive intervals
    refine ⟨pairwise_offset?_kept e, ⟨List.pairwise_lt_range', ih hes chain.of_cons, ?_⟩, ?_⟩
    · intro a ha b hb
      have hb := ((mem_offset?_piecesFrom hes chain.of_cons b).1 hb).1
      have ha := List.mem_range'_1.1 ha
      omega
    · intro a ha b hb
      have ha := ((mem_offset?_kept e a).1 ha).2.2
      rcases List.mem_append.1 hb with hb | hb
      · have hb := List.mem_range'_1.1 hb
        omega
      · have hb := ((mem_offset?_piecesFrom hes chain.of_cons b).1 hb).1
        omega

theorem offset?_pieces {source : List UInt8} {edits : List Edit}
    (inside : ∀ e ∈ edits, e.Within source) (chain : edits.IsChain Before) :
    ((pieces source edits).filterMap Piece.offset?).Pairwise (· < ·) ∧
      ∀ offset, offset ∈ (pieces source edits).filterMap Piece.offset? ↔
        offset < source.length ∧ ¬ Dropped source edits offset := by
  have hlen := gapStop_le inside
  simp only [pieces, List.filterMap_append, offset?_span, List.pairwise_append, List.mem_append,
    List.mem_range'_1]
  constructor
  · refine ⟨List.pairwise_lt_range', pairwise_offset?_piecesFrom inside chain, ?_⟩
    intro a ha b hb
    have hb := ((mem_offset?_piecesFrom inside chain b).1 hb).1
    omega
  · intro offset
    rw [mem_offset?_piecesFrom inside chain]
    by_cases hd : Dropped source edits offset
    · have hfirst := hd.gapStop_le_offset inside chain
      simp only [hd, not_true, and_false, or_false, iff_false]
      omega
    · simp only [hd, not_false_eq_true, and_true]
      omega

/-- Disjoint edits within the source always apply. The output is the source up to the first edit,
then each edit's body with what stays of the gap after it. Its bytes are those written by
qualifying edits and, once each and in order, those of the source that are not dropped. -/
theorem applyAll_by_segments (source : List UInt8) (edits : List Edit)
    (inside : ∀ e ∈ edits, e.Within source) (disjoint : Plan.checkDisjoint edits = .ok ()) :
    ∃ output, applyAll source edits = some output ∧
      output = Span.slice ⟨0, gapStop source edits⟩ source ++ segments source edits ∧
      (pieces source edits).map (Piece.byte? source) = output.map some ∧
      (pieces source edits).filterMap Piece.written? = edits.flatMap qualifier ∧
      ((pieces source edits).filterMap Piece.offset?).Pairwise (· < ·) ∧
      (∀ offset, offset ∈ (pieces source edits).filterMap Piece.offset? ↔
        offset < source.length ∧ ¬ Dropped source edits offset) ∧
      (edits = [] → output = source) := by
  have chain := (Plan.checkDisjoint_ok_iff edits).1 disjoint
  obtain ⟨increasing, exact_offsets⟩ := offset?_pieces inside chain
  refine ⟨_, applyFrom_eq_segments inside 0, rfl, map_byte?_pieces inside,
    written?_pieces source edits, increasing, exact_offsets, ?_⟩
  rintro rfl
  simp [segments, gapStop, Span.slice]

theorem applyAll_by_segments_at_line_breaks :
    let source : List UInt8 := [0x61, 0x0A, 0x0A, 0x62]
    let edits : List Edit :=
      [⟨⟨0, 1⟩, .delete⟩, ⟨⟨2, 3⟩, .passThrough⟩, ⟨⟨3, 4⟩, .qualify "n"⟩]
    (∀ e ∈ edits, e.Within source) ∧ Plan.checkDisjoint edits = .ok () ∧
      applyAll source edits = some [0x0A, 0x6E, 0x3A, 0x3A, 0x62] := by
  intro source edits
  have inside : ∀ e ∈ edits, e.Within source := by decide
  have disjoint : Plan.checkDisjoint edits = .ok () := rfl
  obtain ⟨output, applied, rfl, _⟩ := applyAll_by_segments source edits inside disjoint
  refine ⟨inside, disjoint, applied.trans ?_⟩
  decide +kernel

end UsingRemoval.Edit
