import Mathlib.Data.List.DropRight
import UsingRemoval.Proofs.Segments

/-!
Edits made one at a time. Made from the last to the first, each edit meets the source as it was up
to its own end, and behind that what later edits have left. A deletion then skips line breaks of
that remainder and not of the source; the outcome is the same as long as nothing that a later edit
puts in the place of its span begins with a line break.
-/

set_option autoImplicit false

namespace UsingRemoval.Edit

/-- The source after its edits are made one at a time, the last one first. -/
def applySingly (source : List UInt8) (edits : List Edit) : Option (List UInt8) :=
  edits.foldrM (fun e buffer => applyAll buffer [e]) source

/-- The bytes begin with a carriage return or a line feed. -/
def opensWithBreak (bytes : List UInt8) : Bool :=
  bytes.head?.any isLineBreak

/-- The namespace that the edit writes does not begin with a line break, and the span that it passes
through is neither empty nor begins with one. -/
def isFirm (source : List UInt8) (e : Edit) : Bool :=
  match e.action with
  | .delete => true
  | .qualify scope => !opensWithBreak (Utf8.encode scope)
  | .passThrough => e.span.start < e.span.stop && !opensWithBreak (e.span.slice source)

private theorem dropWhile_append_of_firm {l : List UInt8} (nonempty : l ≠ [])
    (firm : opensWithBreak l = false) (rest : List UInt8) :
    (l ++ rest).dropWhile isLineBreak = l ++ rest := by
  cases l with
  | nil => exact absurd rfl nonempty
  | cons b l =>
    have hb : isLineBreak b = false := by simpa [opensWithBreak] using firm
    simp [hb]

private theorem dropWhile_append_of_eq_self (l : List UInt8) {rest : List UInt8}
    (firm : rest.dropWhile isLineBreak = rest) :
    (l ++ rest).dropWhile isLineBreak = l.dropWhile isLineBreak ++ rest := by
  rw [List.dropWhile_append, firm]
  split
  · rename_i hempty
    rw [List.isEmpty_iff.1 hempty, List.nil_append]
  · rfl

section

variable {source : List UInt8}

/-! ### What later edits leave -/

private theorem slice_ne_nil {e : Edit} (he : e.Within source)
    (nonempty : e.span.start < e.span.stop) : e.span.slice source ≠ [] := by
  intro h
  have hlength := congrArg List.length h
  simp only [Span.slice, List.length_take, List.length_drop, List.length_nil] at hlength
  have hstop := he.2
  omega

private theorem dropWhile_body_append {e : Edit} (he : e.Within source) (firm : e.isFirm source)
    (kept : e.action ≠ .delete) (rest : List UInt8) :
    (e.body (e.span.slice source) ++ rest).dropWhile isLineBreak =
      e.body (e.span.slice source) ++ rest := by
  cases ha : e.action with
  | delete => exact absurd ha kept
  | qualify scope =>
    have firm : opensWithBreak (Utf8.encode scope) = false := by simpa [isFirm, ha] using firm
    have hbody : e.body (e.span.slice source) ++ rest =
        (Utf8.encode scope ++ Utf8.encode "::") ++ (e.span.slice source ++ rest) := by
      simp [body, ha]
    rw [hbody]
    apply dropWhile_append_of_firm
    · intro h
      have hcolons : Utf8.encode "::" = [] := (List.append_eq_nil_iff.1 h).2
      exact absurd hcolons (by decide)
    · -- a namespace may be empty, and then the colons come first
      cases hscope : Utf8.encode scope with
      | nil => decide
      | cons b bytes => simpa [opensWithBreak, hscope] using firm
  | passThrough =>
    have firm : e.span.start < e.span.stop ∧ opensWithBreak (e.span.slice source) = false := by
      simpa [isFirm, ha] using firm
    have hbody : e.body (e.span.slice source) = e.span.slice source := by
      simp only [body, ha]
    rw [hbody]
    exact dropWhile_append_of_firm (slice_ne_nil he firm.1) firm.2 rest

private theorem dropWhile_segments {edits : List Edit} (inside : ∀ e ∈ edits, e.Within source)
    (firm : ∀ e ∈ edits, e.isFirm source) :
    (segments source edits).dropWhile isLineBreak = segments source edits := by
  induction edits with
  | nil => rfl
  | cons e es ih =>
    obtain ⟨he, hes⟩ := List.forall_mem_cons.1 inside
    obtain ⟨hfirm, hfirms⟩ := List.forall_mem_cons.1 firm
    have later := ih hes hfirms
    by_cases ha : e.action = .delete
    · -- the gap is trimmed; if nothing stays of it, the later edits begin the segments
      have hsegments : segments source (e :: es) =
          (Span.slice ⟨e.span.stop, gapStop source es⟩ source).dropWhile isLineBreak ++
            segments source es := by
        simp [segments, body, keepGap, ha]
      rw [hsegments, dropWhile_append_of_eq_self _ later, List.dropWhile_idempotent]
    · rw [segments, List.append_assoc]
      exact dropWhile_body_append he hfirm ha _

private theorem keepGap_append (e : Edit) (gap : List UInt8) {rest : List UInt8}
    (firm : rest.dropWhile isLineBreak = rest) :
    e.keepGap (gap ++ rest) = e.keepGap gap ++ rest := by
  cases ha : e.action with
  | delete =>
    simp only [keepGap, ha]
    exact dropWhile_append_of_eq_self gap firm
  | qualify scope => simp only [keepGap, ha]
  | passThrough => simp only [keepGap, ha]

/-! ### One edit on what later edits leave -/

private theorem slice_eq_drop_take (span : Span) (bytes : List UInt8) :
    span.slice bytes = (bytes.take span.stop).drop span.start := by
  rw [Span.slice, List.drop_take]

private theorem slice_take_append {span : Span} {n : Nat} (hn : n ≤ source.length)
    (hspan : span.stop ≤ n) (rest : List UInt8) :
    span.slice (source.take n ++ rest) = span.slice source := by
  have hlength : (source.take n).length = n := List.length_take_of_le hn
  rw [slice_eq_drop_take, slice_eq_drop_take, List.take_append_of_le_length (by omega),
    List.take_take, Nat.min_eq_left hspan]

private theorem slice_to_end {start n : Nat} (hn : n ≤ source.length) (hstart : start ≤ n)
    (rest : List UInt8) :
    Span.slice ⟨start, (source.take n ++ rest).length⟩ (source.take n ++ rest) =
      Span.slice ⟨start, n⟩ source ++ rest := by
  have hle : start ≤ (source.take n).length := by
    rwa [List.length_take_of_le hn]
  rw [slice_eq_drop_take, slice_eq_drop_take, List.take_length,
    List.drop_append_of_le_length hle]

private theorem applyAll_singleton {e : Edit} {n : Nat} (hn : n ≤ source.length)
    (hforward : e.span.start ≤ e.span.stop) (hstop : e.span.stop ≤ n) (rest : List UInt8) :
    applyAll (source.take n ++ rest) [e] =
      some (source.take e.span.start ++ e.body (e.span.slice source) ++
        e.keepGap (Span.slice ⟨e.span.stop, n⟩ source ++ rest)) := by
  have hlength : (source.take n).length = n := List.length_take_of_le hn
  have within : ∀ d ∈ [e], d.Within (source.take n ++ rest) := by
    intro d hd
    rw [List.mem_singleton.1 hd]
    refine ⟨hforward, ?_⟩
    rw [List.length_append]
    omega
  have hbefore : Span.slice ⟨0, e.span.start⟩ (source.take n ++ rest) =
      source.take e.span.start := by
    rw [slice_take_append hn (hforward.trans hstop), slice_eq_drop_take, List.drop_zero]
  rw [applyAll, applyFrom_eq_segments within 0]
  simp only [gapStop, segments, List.append_nil]
  rw [hbefore, slice_take_append hn hstop, slice_to_end hn hstop, List.append_assoc]

private theorem applyAll_passThrough {e : Edit} {n : Nat} (ha : e.action = .passThrough)
    (hn : n ≤ source.length) (hforward : e.span.start ≤ e.span.stop) (hstop : e.span.stop ≤ n)
    (rest : List UInt8) :
    applyAll (source.take n ++ rest) [e] = some (source.take n ++ rest) := by
  have hbody : e.body (e.span.slice source) = e.span.slice source := by
    simp only [body, ha]
  have hgap (gap : List UInt8) : e.keepGap gap = gap := by
    simp only [keepGap, ha]
  have hcovered : source.take e.span.start ++ e.span.slice source = source.take e.span.stop := by
    rw [Span.slice, ← List.take_add, Nat.add_sub_cancel' hforward]
  have hafter : source.take e.span.stop ++ Span.slice ⟨e.span.stop, n⟩ source = source.take n := by
    rw [Span.slice, ← List.take_add, Nat.add_sub_cancel' hstop]
  rw [applyAll_singleton hn hforward hstop, hbody, hgap, hcovered, ← List.append_assoc, hafter]

/-! ### All edits -/

private theorem applySingly_cons (e : Edit) (es : List Edit) :
    applySingly source (e :: es) = (applySingly source es).bind fun buffer => applyAll buffer [e] :=
  List.foldrM_cons

private theorem applySingly_eq_segments {edits : List Edit}
    (inside : ∀ e ∈ edits, e.Within source) (chain : edits.IsChain Before)
    (firm : ∀ e ∈ edits, e.isFirm source) :
    applySingly source edits =
      some (source.take (gapStop source edits) ++ segments source edits) := by
  induction edits with
  | nil => simp [applySingly, gapStop, segments]
  | cons e es ih =>
    obtain ⟨he, hes⟩ := List.forall_mem_cons.1 inside
    obtain ⟨_, hfirms⟩ := List.forall_mem_cons.1 firm
    have hstop := stop_le_gapStop he chain
    have hsegments := dropWhile_segments hes hfirms
    rw [applySingly_cons, ih hes chain.of_cons hfirms, Option.bind_some,
      applyAll_singleton (gapStop_le hes) he.1 hstop, keepGap_append e _ hsegments]
    simp only [gapStop, segments, List.append_assoc]

private theorem applySingly_filter_isChange {edits : List Edit}
    (inside : ∀ e ∈ edits, e.Within source) (chain : edits.IsChain Before)
    (firm : ∀ e ∈ edits, e.isFirm source) :
    applySingly source (edits.filter isChange) = applySingly source edits := by
  induction edits with
  | nil => rfl
  | cons e es ih =>
    obtain ⟨he, hes⟩ := List.forall_mem_cons.1 inside
    obtain ⟨_, hfirms⟩ := List.forall_mem_cons.1 firm
    have rest := ih hes chain.of_cons hfirms
    by_cases hchange : e.isChange
    · rw [List.filter_cons_of_pos hchange, applySingly_cons, rest, applySingly_cons]
    · have ha : e.action = .passThrough := by simpa [isChange] using hchange
      have hleft := applySingly_eq_segments hes chain.of_cons hfirms
      rw [List.filter_cons_of_neg hchange, rest, applySingly_cons, hleft, Option.bind_some,
        applyAll_passThrough ha (gapStop_le hes) he.1 (stop_le_gapStop he chain)]

end

/-- Disjoint edits within the source can be made in one pass or one at a time, the last one first,
and those that pass their span through can be left out. -/
theorem applyAll_eq_applySingly (source : List UInt8) (edits : List Edit)
    (inside : ∀ e ∈ edits, e.Within source) (disjoint : Plan.checkDisjoint edits = .ok ())
    (firm : ∀ e ∈ edits, e.isFirm source) :
    ∃ output, applyAll source edits = some output ∧ applySingly source edits = some output ∧
      applyAll source (edits.filter isChange) = some output := by
  have onePass (l : List Edit) (hl : ∀ e ∈ l, e.Within source) :
      applyAll source l = some (source.take (gapStop source l) ++ segments source l) := by
    rw [applyAll, applyFrom_eq_segments hl 0, slice_eq_drop_take, List.drop_zero]
  have chain := (Plan.checkDisjoint_ok_iff edits).1 disjoint
  have singly := applySingly_eq_segments inside chain firm
  -- the changes alone are as well placed as all edits, so they too can be made one at a time
  have subset : ∀ e ∈ edits.filter isChange, e ∈ edits := fun e he => (List.mem_filter.1 he).1
  have inside' : ∀ e ∈ edits.filter isChange, e.Within source := fun e he => inside e (subset e he)
  have chain' : (edits.filter isChange).IsChain Before :=
    ((pairwise_before_of_isChain inside chain).sublist List.filter_sublist).isChain
  have singly' := applySingly_eq_segments inside' chain' fun e he => firm e (subset e he)
  refine ⟨_, onePass edits inside, singly, ?_⟩
  rw [onePass _ inside', ← singly', ← singly]
  exact applySingly_filter_isChange inside chain firm

theorem applyAll_eq_applySingly_after_deletions :
    let source : List UInt8 := [0x61, 0x0A, 0x0D, 0x62, 0x0A, 0x63, 0x64]
    let edits : List Edit :=
      [⟨⟨0, 1⟩, .delete⟩, ⟨⟨3, 4⟩, .delete⟩, ⟨⟨5, 6⟩, .qualify "n"⟩, ⟨⟨6, 7⟩, .passThrough⟩]
    (∀ e ∈ edits, e.Within source) ∧ Plan.checkDisjoint edits = .ok () ∧
      (∀ e ∈ edits, e.isFirm source) ∧
      applySingly source edits = some [0x6E, 0x3A, 0x3A, 0x63, 0x64] := by
  intro source edits
  have inside : ∀ e ∈ edits, e.Within source := by decide
  have disjoint : Plan.checkDisjoint edits = .ok () := rfl
  have firm : ∀ e ∈ edits, e.isFirm source := by decide
  obtain ⟨output, onePass, singly, _⟩ := applyAll_eq_applySingly source edits inside disjoint firm
  refine ⟨inside, disjoint, firm, ?_⟩
  rw [singly, ← onePass]
  decide +kernel

end UsingRemoval.Edit
