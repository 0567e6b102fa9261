import UsingRemoval.Proofs.Overlap
import UsingRemoval.Proofs.Segments

/-!
What becomes of a tree. A plan fails for one reason only, and in a tree whose names are leaves and
whose removable declarations are not nested that reason can be read off the captures: a bare name
shares a place with a declaration that goes. Every other plan is carried out.
-/

set_option autoImplicit false

namespace UsingRemoval

open Survey

/-- A bare name and a declaration that goes share a place. -/
def CaptureSet.Clash (captures : CaptureSet) : Prop :=
  ∃ u ∈ captures.unqualified.toList, ∃ d ∈ Plan.deletions captures,
    u.span.start < d.span.stop ∧ d.span.start < u.span.stop

instance (captures : CaptureSet) : Decidable captures.Clash :=
  inferInstanceAs (Decidable (∃ u ∈ captures.unqualified.toList, ∃ d ∈ Plan.deletions captures,
    u.span.start < d.span.stop ∧ d.span.start < u.span.stop))

namespace Plan

variable {root : Node} {source : List UInt8} {fallback : NamespaceMap}

theorem error_of_make_ofTree {e : RemovalError}
    (failed : make (.collect root source) (.ofTree root source) fallback = .error e) :
    ∃ first second, e = .overlappingEdits first second := by
  rw [make_ofTree] at failed
  have hne : checkDisjoint (editsFor root source fallback).toList ≠ .ok () := by
    intro hok
    rw [hok] at failed
    cases failed
  obtain ⟨first, second, herror⟩ := checkDisjoint_ne_ok hne
  rw [herror] at failed
  cases failed
  exact ⟨first, second, rfl⟩

theorem within_of_mem_editsFor (wf : root.WellFormed source) {e : Edit}
    (he : e ∈ (editsFor root source fallback).toList) : e.Within source := by
  obtain ⟨n, edited, hspan⟩ := exists_span_editsFor_iff.1 ⟨e, he, rfl⟩
  have hn := edited.mem_preorder
  rw [Edit.Within, ← hspan]
  exact ⟨wf.forward n hn, wf.inside n hn⟩

theorem exists_applyAll_of_make_ofTree (wf : root.WellFormed source) {plan : Plan}
    (planned : make (.collect root source) (.ofTree root source) fallback = .ok plan) :
    ∃ output, Edit.applyAll source plan.edits = some output := by
  have inside : ∀ e ∈ plan.edits, e.Within source := by
    rw [edits_of_make_ofTree planned]
    exact fun e he => within_of_mem_editsFor wf he
  exact ⟨_, Edit.applyFrom_eq_segments inside 0⟩

theorem exists_overlaps_iff_clash (wf : root.WellFormed source)
    (leaves : ∀ n ∈ root.preorder, n.kind = "identifier" ∨ n.kind = "type_identifier" →
      n.children = [])
    (unnested : ∀ d d', Removable root d → Removable root d' → d' ∈ d.preorder → d'.span = d.span)
    (unshared : ∀ n ∈ root.preorder, n.kind = "identifier" ∨ n.kind = "type_identifier" →
      ∀ d, Removable root d → n.span ≠ d.span) :
    (∃ m n, Edited root m ∧ Edited root n ∧ m.Overlaps n) ↔
      (CaptureSet.collect root source).Clash := by
  have captured {m d : Node} (bare : Bare root m) (removable : Removable root d)
      (overlaps : m.Overlaps d) : (CaptureSet.collect root source).Clash := by
    obtain ⟨u, hu, hm⟩ := CaptureSet.exists_mem_unqualified source bare
    obtain ⟨c, hc, hd⟩ := exists_mem_deletions source removable
    exact ⟨u, hu, c, hc, by rw [hm, hd]; exact overlaps.2⟩
  constructor
  · rintro ⟨m, n, hm, hn, overlaps⟩
    rcases wf.below_or_apart hm.mem_preorder hn.mem_preorder with
      below | below | apart | apart
    · obtain ⟨bare, removable⟩ := bare_below_of_overlaps leaves unnested hm hn overlaps below
      exact captured bare removable overlaps
    · obtain ⟨bare, removable⟩ :=
        bare_below_of_overlaps leaves unnested hn hm overlaps.symm below
      exact captured bare removable overlaps.symm
    · have hstart := overlaps.2.2
      omega
    · have hstart := overlaps.2.1
      omega
  · rintro ⟨u, hu, c, hc, hstart, hstop⟩
    obtain ⟨m, _, bare, rfl⟩ := CaptureSet.of_mem_unqualified hu
    obtain ⟨d, _, removable, rfl⟩ := of_mem_deletions hc
    have hne := unshared m bare.mem_preorder bare.kind.symm d removable
    exact ⟨m, d, .inl bare, .inr removable, hne, hstart, hstop⟩

end Plan

namespace Session

theorem take_fix_of_plan {s : Session} (current : Current s) {plan : Plan} {output : List UInt8}
    (planned : (s.take makePlan).1 = .ok plan)
    (applied : Edit.applyAll s.source plan.edits = some output) :
    (s.take fix).1 = .ok output ∧ ((s.take makePlan).2.take fix).1 = .ok output := by
  obtain ⟨answer, later, same⟩ := answers_makePlan current
  have hplan : s.freshPlan = .ok plan := answer.symm.trans planned
  have houtput : s.freshOutput = .ok output := by
    simp only [freshOutput, hplan, bind, Except.bind, applied]
  refine ⟨(answers_fix current).answer.trans houtput, ?_⟩
  rw [(answers_fix later).answer]
  exact (fresh_eq_of_restarted same .output).trans houtput

/-- Planning fails exactly if a bare name shares a place with a declaration that goes, and then
because of overlapping edits; otherwise there is a plan and it is carried out. -/
theorem makePlan_fails_iff_clash (parser : Parser) (fallback : NamespaceMap)
    {source : List UInt8} {root : Node} (parsed : parser source = some root)
    (wf : root.WellFormed source)
    (leaves : ∀ n ∈ root.preorder, n.kind = "identifier" ∨ n.kind = "type_identifier" →
      n.children = [])
    (unnested : ∀ d d', Removable root d → Removable root d' → d' ∈ d.preorder → d'.span = d.span)
    (unshared : ∀ n ∈ root.preorder, n.kind = "identifier" ∨ n.kind = "type_identifier" →
      ∀ d, Removable root d → n.span ≠ d.span) :
    let planned := (start parser source fallback).take makePlan
    (∀ e, planned.1 = .error e → ∃ first second, e = .overlappingEdits first second) ∧
    ((∃ e, planned.1 = .error e) ↔ (CaptureSet.collect root source).Clash) ∧
    (¬ (CaptureSet.collect root source).Clash → ∃ plan output, planned.1 = .ok plan ∧
      Edit.applyAll source plan.edits = some output ∧ (planned.2.take fix).1 = .ok output) := by
  intro planned
  have hplanned : planned.1 = Plan.make (.collect root source) (.ofTree root source) fallback :=
    take_makePlan_start fallback parsed
  have fails : (∃ e, planned.1 = .error e) ↔ (CaptureSet.collect root source).Clash := by
    have overlap : (∃ first second, planned.1 = .error (.overlappingEdits first second)) ↔
        ∃ m n, Edited root m ∧ Edited root n ∧ m.Overlaps n := by
      rw [hplanned]
      exact Plan.make_ofTree_eq_error_iff wf
    rw [← Plan.exists_overlaps_iff_clash wf leaves unnested unshared, ← overlap, hplanned]
    constructor
    · rintro ⟨e, failed⟩
      obtain ⟨first, second, rfl⟩ := Plan.error_of_make_ofTree failed
      exact ⟨first, second, failed⟩
    · rintro ⟨first, second, failed⟩
      exact ⟨_, failed⟩
  refine ⟨fun e failed => Plan.error_of_make_ofTree (hplanned.symm.trans failed), fails, ?_⟩
  intro clear
  cases hplan : planned.1 with
  | error e => exact absurd (fails.1 ⟨e, hplan⟩) clear
  | ok plan =>
    obtain ⟨output, applied⟩ := Plan.exists_applyAll_of_make_ofTree wf (hplanned.symm.trans hplan)
    have current := current_start parser source fallback none
    exact ⟨plan, output, rfl, applied, (take_fix_of_plan current hplan applied).2⟩

/-- The tree of `using a::b;b x;` and a line feed. -/
def touching : Node :=
  .branch "translation_unit" none 0 16 [
    .branch "using_declaration" none 0 11 [
      .literal "using" 0 5,
      .branch "qualified_identifier" none 6 10 [
        .branch "namespace_identifier" (some "scope") 6 7,
        .literal "::" 7 9,
        .branch "identifier" (some "name") 9 10],
      .literal ";" 10 11],
    .branch "declaration" none 11 15 [
      .branch "type_identifier" (some "type") 11 12,
      .branch "identifier" (some "declarator") 13 14,
      .literal ";" 14 15]]

theorem makePlan_fails_iff_clash_touching :
    let planned := (start (fun _ => some touching) (Utf8.encode "using a::b;b x;\n")
      .empty).take makePlan
    ∃ plan output, planned.1 = .ok plan ∧ (planned.2.take fix).1 = .ok output := by
  have wf : touching.WellFormed (Utf8.encode "using a::b;b x;\n") := by decide +kernel
  have leaves : ∀ n ∈ touching.preorder, n.kind = "identifier" ∨ n.kind = "type_identifier" →
      n.children = [] := by decide
  have single (d : Node) (removable : Removable touching d) : d.span = ⟨0, 11⟩ := by
    have hspan : ∀ n ∈ touching.preorder, n.kind = "using_declaration" → n.span = ⟨0, 11⟩ := by
      decide
    exact hspan d removable.mem removable.kind
  have shorter : ∀ n ∈ touching.preorder, n.kind = "identifier" ∨ n.kind = "type_identifier" →
      n.span ≠ ⟨0, 11⟩ := by decide
  have clear : ¬ (CaptureSet.collect touching (Utf8.encode "using a::b;b x;\n")).Clash := by
    decide +kernel
  obtain ⟨_, _, succeeds⟩ := makePlan_fails_iff_clash (fun _ => some touching) .empty rfl wf leaves
    (fun d d' hd hd' _ => (single d' hd').trans (single d hd).symm)
    (fun n hn hkind d hd => single d hd ▸ shorter n hn hkind)
  obtain ⟨plan, output, planned, _, fixed⟩ := succeeds clear
  exact ⟨plan, output, planned, fixed⟩

end Session

end UsingRemoval
