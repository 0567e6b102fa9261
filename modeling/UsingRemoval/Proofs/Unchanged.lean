import UsingRemoval.Proofs.Outcome

/-!
Sources with nothing left to do. Where no declaration is captured and the fallback table knows none
of the bare names, every edit passes its span through, and the source comes out byte for byte. This
holds for spans of every length: with no deletion about, an empty span cuts no run of line breaks.
-/

set_option autoImplicit false

namespace UsingRemoval

open Survey

namespace Edit

variable {source : List UInt8} {edits : List Edit}

private theorem slice_append_drop {span : Span} (forward : span.start ≤ span.stop) :
    span.slice source ++ source.drop span.stop = source.drop span.start := by
  have hdrop : source.drop span.stop =
      (source.drop span.start).drop (span.stop - span.start) := by
    rw [List.drop_drop, Nat.add_sub_cancel' forward]
  rw [Span.slice, hdrop, List.take_append_drop]

private theorem segments_of_passThrough (inside : ∀ e ∈ edits, e.Within source)
    (chain : edits.IsChain Before) (passes : ∀ e ∈ edits, e.action = .passThrough) :
    segments source edits = source.drop (gapStop source edits) := by
  induction edits with
  | nil => simp [segments, gapStop]
  | cons e es ih =>
    obtain ⟨he, hes⟩ := List.forall_mem_cons.1 inside
    obtain ⟨ha, hpasses⟩ := List.forall_mem_cons.1 passes
    have hgap : Span.slice ⟨e.span.stop, gapStop source es⟩ source ++
        source.drop (gapStop source es) = source.drop e.span.stop :=
      slice_append_drop (stop_le_gapStop he chain)
    simp only [segments, body, keepGap, ha]
    rw [ih hes chain.of_cons hpasses, List.append_assoc, hgap]
    exact slice_append_drop he.1

theorem applyAll_of_passThrough (inside : ∀ e ∈ edits, e.Within source)
    (chain : edits.IsChain Before) (passes : ∀ e ∈ edits, e.action = .passThrough) :
    applyAll source edits = some source := by
  rw [applyAll, applyFrom_eq_segments inside 0, segments_of_passThrough inside chain passes]
  simp [Span.slice, List.take_append_drop]

end Edit

section

variable {root : Node} {source : List UInt8} {fallback : NamespaceMap}

private theorem group_usingQualType_eq_nil (wf : root.WellFormed source)
    (undeclared : (CaptureSet.collect root source).group .usingDecl = []) :
    (CaptureSet.collect root source).group .usingQualType = [] := by
  rw [List.eq_nil_iff_forall_not_mem]
  intro c hc
  obtain ⟨d, hd, q, hnotes, _⟩ := CaptureSet.of_mem_group hc
  obtain ⟨hq, declaration, hchild, _⟩ := exists_notes_usingQualType.1 hnotes
  -- the declaration around a captured name is captured too, because it does not end at offset zero
  have hstop : d.span.stop ≠ 0 := by
    have hwithin := (wf.nested d hd q hchild).2
    omega
  obtain ⟨c', hc', _⟩ : ∃ c ∈ (CaptureSet.collect root source).group .usingDecl, c.span = d.span :=
    CaptureSet.exists_mem_group_iff.2
      ⟨d, hd, d, exists_notes_usingDecl.2 ⟨hstop, rfl, declaration⟩, rfl⟩
  rw [undeclared] at hc'
  cases hc'

private theorem declared_eq_empty (wf : root.WellFormed source)
    (undeclared : (CaptureSet.collect root source).group .usingDecl = []) :
    (Resolution.ofTree root source).declared = .empty := by
  rw [Resolution.ofTree, Resolution.ofCaptures, Resolution.declaredIn,
    group_usingQualType_eq_nil wf undeclared]
  rfl

private theorem namespaceFor?_eq_none {name : String}
    (declared : (Resolution.ofTree root source).declared = .empty)
    (unknown : fallback.get? name = none) :
    (Resolution.ofTree root source).namespaceFor? fallback name = none := by
  rw [Resolution.namespaceFor?, declared, unknown]
  rfl

private theorem isChain_editsFor (wf : root.WellFormed source)
    (leaves : ∀ n ∈ root.preorder, n.kind = "identifier" ∨ n.kind = "type_identifier" →
      n.children = [])
    (stays : Plan.deletions (CaptureSet.collect root source) = []) (fallback : NamespaceMap) :
    (Plan.editsFor root source fallback).toList.IsChain Edit.Before := by
  have kept (d : Node) : ¬ Removable root d := by
    intro removable
    obtain ⟨c, hc, _⟩ := Plan.exists_mem_deletions source removable
    rw [stays] at hc
    cases hc
  have clashes := Plan.exists_overlaps_iff_clash wf leaves
    (fun d _ removable _ _ => absurd removable (kept d))
    (fun _ _ _ d removable => absurd removable (kept d))
  rw [← Plan.checkDisjoint_ok_iff, Plan.checkDisjoint_editsFor_iff wf]
  intro m n hm hn overlaps
  obtain ⟨_, _, c, hc, _⟩ := clashes.1 ⟨m, n, hm, hn, overlaps⟩
  rw [stays] at hc
  cases hc

private theorem passThrough_of_mem_editsFor
    (stays : Plan.deletions (CaptureSet.collect root source) = [])
    (unnamed : ∀ c ∈ (CaptureSet.collect root source).unqualified.toList,
      (Resolution.ofTree root source).namespaceFor? fallback c.text = none)
    {e : Edit} (he : e ∈ (Plan.editsFor root source fallback).toList) :
    e.action = .passThrough := by
  rcases Plan.mem_allEdits.1 he with ⟨c, hc, rfl⟩ | ⟨_, c, hc, _⟩
  · rw [Plan.qualification, unnamed c hc]
  · rw [stays] at hc
    cases hc

end

namespace Session

/-- Where no declaration is captured and the fallback table has none of the bare names, nothing is
declared, nothing is changed, all bare names are unresolved and the source stays as it is. -/
theorem unchanged_of_nothing_captured (parser : Parser) (fallback : NamespaceMap)
    {source : List UInt8} {root : Node} (parsed : parser source = some root)
    (wf : root.WellFormed source)
    (leaves : ∀ n ∈ root.preorder, n.kind = "identifier" ∨ n.kind = "type_identifier" →
      n.children = [])
    (undeclared : (CaptureSet.collect root source).group .usingDecl = [])
    (undirected : (CaptureSet.collect root source).group .usingNsDecl = [])
    (unknown : ∀ c ∈ (CaptureSet.collect root source).unqualified.toList,
      fallback.get? c.text = none) :
    ∃ resolution plan, ((start parser source fallback).take resolve).1 = .ok resolution ∧
      resolution.declared = .empty ∧
      ((start parser source fallback).take makePlan).1 = .ok plan ∧ plan.changes = 0 ∧
      plan.unresolved = resolution.unqualified.toList ∧
      ((start parser source fallback).take fix).1 = .ok source := by
  have declared := declared_eq_empty wf undeclared
  have stays : Plan.deletions (CaptureSet.collect root source) = [] := by
    rw [Plan.deletions, undeclared, undirected, List.append_nil]
  have unnamed : ∀ c ∈ (CaptureSet.collect root source).unqualified.toList,
      (Resolution.ofTree root source).namespaceFor? fallback c.text = none :=
    fun c hc => namespaceFor?_eq_none declared (unknown c hc)
  have chain := isChain_editsFor wf leaves stays fallback
  have passes : ∀ e ∈ (Plan.editsFor root source fallback).toList, e.action = .passThrough :=
    fun e he => passThrough_of_mem_editsFor stays unnamed he
  let plan : Plan := ⟨(Plan.editsFor root source fallback).toList,
    (CaptureSet.collect root source).unqualified.toList⟩
  have planned : ((start parser source fallback).take makePlan).1 = .ok plan := by
    have hunresolved : ((Resolution.ofTree root source).unqualified.toList.filter fun c =>
        ((Resolution.ofTree root source).namespaceFor? fallback c.text).isNone) =
        (CaptureSet.collect root source).unqualified.toList := by
      apply List.filter_eq_self.2
      intro c hc
      rw [unnamed c hc]
      rfl
    rw [take_makePlan_start fallback parsed, Plan.make_ofTree,
      (Plan.checkDisjoint_ok_iff _).2 chain, hunresolved]
    rfl
  have changes : plan.changes = 0 := by
    rw [Plan.changes, List.countP_eq_zero]
    intro e he
    simp [Edit.isChange, passes e he]
  have applied : Edit.applyAll source plan.edits = some source :=
    Edit.applyAll_of_passThrough (fun e he => Plan.within_of_mem_editsFor wf he) chain passes
  have fixed := (take_fix_of_plan (current_start parser source fallback none) planned applied).1
  exact ⟨_, plan, take_resolve_start fallback parsed, declared, planned, changes, rfl, fixed⟩

/-- A tree for the bytes of `a b;`, then a type name that is missing, a byte that is no text and a
line feed. -/
def unreadable : Node :=
  .branch "translation_unit" none 0 6 [
    .branch "declaration" none 0 4 [
      .branch "type_identifier" (some "type") 0 1,
      .branch "identifier" (some "declarator") 2 3,
      .literal ";" 3 4],
    .branch "declaration" none 4 4 [
      .mk ⟨"type_identifier", true, true, false, false, some "type", ⟨4, 4⟩⟩ []],
    .mk ⟨"ERROR", true, false, true, true, none, ⟨4, 5⟩⟩ []]

theorem unchanged_of_nothing_captured_unreadable :
    (CaptureSet.collect unreadable [0x61, 0x20, 0x62, 0x3B, 0xFF, 0x0A]).unqualified.toList.map
      Capture.span = [⟨0, 1⟩, ⟨4, 4⟩] ∧
    ((start (fun _ => some unreadable) [0x61, 0x20, 0x62, 0x3B, 0xFF, 0x0A]
      (.ofList [("b", "std")])).take fix).1 = .ok [0x61, 0x20, 0x62, 0x3B, 0xFF, 0x0A] := by
  have wf : unreadable.WellFormed [0x61, 0x20, 0x62, 0x3B, 0xFF, 0x0A] := by decide +kernel
  have unknown : ∀ c ∈ (CaptureSet.collect unreadable
      [0x61, 0x20, 0x62, 0x3B, 0xFF, 0x0A]).unqualified.toList,
      NamespaceMap.get? (.ofList [("b", "std")]) c.text = none := by decide +kernel
  obtain ⟨_, _, _, _, _, _, _, fixed⟩ := unchanged_of_nothing_captured (fun _ => some unreadable)
    (.ofList [("b", "std")]) rfl wf (by decide) (by decide +kernel) (by decide +kernel) unknown
  exact ⟨by decide +kernel, fixed⟩

end Session

end UsingRemoval
