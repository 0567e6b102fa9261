import UsingRemoval.Proofs.PlanMeaning

/-!
Plans made from the same captures with two fallback tables. Both runs inspect the same captures and
put edits with the same spans into their lists one after another, so the lists stay in step: they
fail alike, and where they succeed they differ only at bare names that the source does not declare
and for which the tables differ.
-/

set_option autoImplicit false

namespace UsingRemoval

namespace Ordered

universe u v

variable {α : Type u} {κ : Type v} [Ord κ] {key : α → κ} {R : α → α → Prop}

theorem forall₂_place (sameKey : ∀ a b, R a b → key a = key b) (keep : Bool) {x y : α}
    (hxy : R x y) {xs ys : List α} (inStep : List.Forall₂ R xs ys) :
    List.Forall₂ R (place key keep x xs) (place key keep y ys) := by
  induction inStep with
  | nil => exact .cons hxy .nil
  | @cons a b as bs hab rest ih =>
    have hx : key x = key y := sameKey x y hxy
    have ha : key a = key b := sameKey a b hab
    rw [place, place, hx, ha]
    split
    · exact .cons hxy (.cons hab rest)
    · cases keep with
      | true => exact .cons hab rest
      | false => exact .cons hxy rest
    · exact .cons hab ih

variable [Std.TransOrd κ] [Std.LawfulEqOrd κ]

theorem forall₂_foldl_insertNew (sameKey : ∀ a b, R a b → key a = key b) {l m : List α}
    (given : List.Forall₂ R l m) {s t : Ordered key} (inStep : List.Forall₂ R s.toList t.toList) :
    List.Forall₂ R (l.foldl insertNew s).toList (m.foldl insertNew t).toList := by
  induction given generalizing s t with
  | nil => exact inStep
  | @cons x y l m hxy rest ih =>
    rw [List.foldl_cons, List.foldl_cons]
    apply ih
    exact forall₂_place sameKey true hxy inStep

end Ordered

namespace Plan

variable {captures : CaptureSet} {resolution : Resolution} {F G : NamespaceMap}

/-- Two edits of one span: the same edit, or the edits of a bare name that the source does not
declare and for which the tables differ. -/
inductive InStep (resolution : Resolution) (F G : NamespaceMap) : Edit → Edit → Prop where
  | same (e : Edit) : InStep resolution F G e e
  | undeclared {c : Capture} (hc : c ∈ resolution.unqualified.toList)
      (undeclared : resolution.declared.get? c.text = none)
      (differ : F.get? c.text ≠ G.get? c.text) :
      InStep resolution F G (qualification resolution F c) (qualification resolution G c)

namespace InStep

variable {a b : Edit}

theorem span_eq (h : InStep resolution F G a b) : a.span = b.span := by
  cases h with
  | same => rfl
  | undeclared => rw [qualification_span, qualification_span]

theorem action_eq_delete_iff (h : InStep resolution F G a b) :
    a.action = .delete ↔ b.action = .delete := by
  cases h with
  | same => rfl
  | @undeclared c =>
    have kept (table : NamespaceMap) : (qualification resolution table c).action ≠ .delete := by
      unfold qualification
      split <;> exact nofun
    exact iff_of_false (kept F) (kept G)

theorem eq_of_delete (h : InStep resolution F G a b) (delete : a.action = .delete) : a = b := by
  have delete' := h.action_eq_delete_iff.1 delete
  have span := h.span_eq
  cases a
  cases b
  simp_all

end InStep

theorem qualification_ne_iff {c : Capture} :
    qualification resolution F c ≠ qualification resolution G c ↔
      resolution.declared.get? c.text = none ∧ F.get? c.text ≠ G.get? c.text := by
  simp only [qualification_eq, wantedAction, ne_eq, Edit.mk.injEq, true_and]
  -- a declared name never gets to the tables
  cases resolution.declared.get? c.text <;> cases F.get? c.text <;> cases G.get? c.text <;> simp

theorem inStep_qualification {c : Capture} (hc : c ∈ resolution.unqualified.toList) :
    InStep resolution F G (qualification resolution F c) (qualification resolution G c) := by
  by_cases same : qualification resolution F c = qualification resolution G c
  · rw [same]
    exact .same _
  · obtain ⟨undeclared, differ⟩ := qualification_ne_iff.1 same
    exact .undeclared hc undeclared differ

theorem inStep_allEdits (captures : CaptureSet) (resolution : Resolution) (F G : NamespaceMap) :
    List.Forall₂ (InStep resolution F G) (allEdits captures resolution F).toList
      (allEdits captures resolution G).toList := by
  have names : List.Forall₂ (InStep resolution F G)
      (resolution.unqualified.toList.map (qualification resolution F))
      (resolution.unqualified.toList.map (qualification resolution G)) := by
    rw [List.forall₂_map_left_iff, List.forall₂_map_right_iff, List.forall₂_same]
    intro c hc
    exact inStep_qualification hc
  have declarations : List.Forall₂ (InStep resolution F G)
      ((deletions captures).map deletion) ((deletions captures).map deletion) := by
    rw [List.forall₂_same]
    intro e _
    exact .same e
  apply Ordered.forall₂_foldl_insertNew (fun _ _ h => h.span_eq)
  · exact List.rel_append names declarations
  · exact .nil

theorem checkDisjoint_eq_of_spans {l m : List Edit}
    (spans : List.Forall₂ (fun a b => a.span = b.span) l m) :
    checkDisjoint l = checkDisjoint m := by
  induction spans with
  | nil => rfl
  | @cons a b l m hab rest ih =>
    cases rest with
    | nil => rfl
    | @cons a' b' l m hab' rest => simp only [checkDisjoint, hab, hab', ih]

theorem edits_of_make {table : NamespaceMap} {plan : Plan}
    (planned : make captures resolution table = .ok plan) :
    plan.edits = (allEdits captures resolution table).toList := by
  rw [make_eq] at planned
  split at planned
  · cases planned
  · cases check : checkDisjoint (allEdits captures resolution table).toList with
    | error e =>
      rw [check] at planned
      cases planned
    | ok u =>
      rw [check] at planned
      cases planned
      rfl

theorem make_eq_error_iff (captures : CaptureSet) (resolution : Resolution) (F G : NamespaceMap)
    (e : RemovalError) :
    make captures resolution F = .error e ↔ make captures resolution G = .error e := by
  have check : checkDisjoint (allEdits captures resolution F).toList =
      checkDisjoint (allEdits captures resolution G).toList :=
    checkDisjoint_eq_of_spans
      ((inStep_allEdits captures resolution F G).imp fun _ _ h => h.span_eq)
  rw [make_eq, make_eq, check]
  cases (inspected captures resolution).find? fun p => !p.2.contains p.1.kind with
  | some p => rfl
  | none =>
    cases checkDisjoint (allEdits captures resolution G).toList with
    | error e => rfl
    | ok u => exact iff_of_false nofun nofun

theorem spans_eq_of_inStep {l m : List Edit} (h : List.Forall₂ (InStep resolution F G) l m) :
    l.map Edit.span = m.map Edit.span := by
  rw [← List.forall₂_eq_eq_eq, List.forall₂_map_left_iff, List.forall₂_map_right_iff]
  exact h.imp fun _ _ hab => hab.span_eq

theorem deletes_eq_of_inStep {l m : List Edit} (h : List.Forall₂ (InStep resolution F G) l m) :
    (l.filter fun e => e.action = .delete) = m.filter fun e => e.action = .delete := by
  induction h with
  | nil => rfl
  | @cons a b l m hab rest ih =>
    by_cases delete : a.action = .delete
    · obtain rfl := hab.eq_of_delete delete
      simp only [List.filter_cons, ih]
    · have kept : b.action ≠ .delete := fun h => delete (hab.action_eq_delete_iff.2 h)
      simp only [List.filter_cons, delete, kept, decide_false, Bool.false_eq_true, if_false, ih]

theorem eq_qualification_of_mem {table : NamespaceMap} {e : Edit} {c : Capture}
    (he : e ∈ (allEdits captures resolution table).toList)
    (hc : c ∈ resolution.unqualified.toList) (span : c.span = e.span) :
    e = qualification resolution table c := by
  have named : qualification resolution table c ∈ (allEdits captures resolution table).toList :=
    mem_allEdits.2 (.inl ⟨c, hc, rfl⟩)
  apply (allEdits captures resolution table).eq_of_key_eq he named
  rw [qualification_span, span]

/-- On one span the two tables lead to different edits exactly if it is that of a bare name that is
not declared and for which the tables differ. -/
theorem edit_ne_iff {a b : Edit} (ha : a ∈ (allEdits captures resolution F).toList)
    (hb : b ∈ (allEdits captures resolution G).toList) (span : a.span = b.span) :
    a ≠ b ↔ ∃ c ∈ resolution.unqualified.toList, c.span = a.span ∧
      resolution.declared.get? c.text = none ∧ F.get? c.text ≠ G.get? c.text := by
  constructor
  · intro ne
    by_cases named : ∃ c ∈ resolution.unqualified.toList, c.span = a.span
    · obtain ⟨c, hc, hspan⟩ := named
      rw [eq_qualification_of_mem ha hc hspan,
        eq_qualification_of_mem hb hc (hspan.trans span)] at ne
      exact ⟨c, hc, hspan, qualification_ne_iff.1 ne⟩
    · have hdelete : a.action = .delete :=
        fulfils_allEdits.others a ha fun c hc hspan => named ⟨c, hc, hspan⟩
      have hdelete' : b.action = .delete :=
        fulfils_allEdits.others b hb fun c hc hspan => named ⟨c, hc, hspan.trans span.symm⟩
      exact absurd (congrArg₂ Edit.mk span (hdelete.trans hdelete'.symm)) ne
  · rintro ⟨c, hc, hspan, differ⟩
    rw [eq_qualification_of_mem ha hc hspan, eq_qualification_of_mem hb hc (hspan.trans span)]
    exact qualification_ne_iff.2 differ

theorem make_eq_of_agree (captures : CaptureSet)
    (agree : ∀ name, resolution.declared.get? name = none → F.get? name = G.get? name) :
    make captures resolution F = make captures resolution G := by
  have namespaces (name : String) :
      resolution.namespaceFor? F name = resolution.namespaceFor? G name := by
    unfold Resolution.namespaceFor?
    cases declared : resolution.declared.get? name with
    | none => rw [agree name declared]
    | some scope => rfl
  have edits : qualification resolution F = qualification resolution G := by
    funext c
    simp only [qualification, namespaces]
  simp only [make, allEdits, edits, namespaces]

end Plan

namespace Session

variable {parser : Parser} {source : List UInt8} {objection : Option String} {F G : NamespaceMap}

theorem freshPlan_eq_of_agree
    (agree : ∀ resolution,
      ((start parser source F objection).take resolve).1 = .ok resolution →
      ∀ name, resolution.declared.get? name = none → F.get? name = G.get? name) :
    (start parser source F objection).freshPlan = (start parser source G objection).freshPlan := by
  let s := start parser source F objection
  have hresolve : (s.take resolve).1 = s.freshResolution :=
    (answers_resolve (current_start parser source F objection)).answer
  have plan (table : NamespaceMap) : (start parser source table objection).freshPlan = (do
      let resolution ← s.freshResolution
      let captures ← s.freshCaptures
      Plan.make captures resolution table) := rfl
  rw [plan F, plan G]
  cases resolved : s.freshResolution with
  | error e => rfl
  | ok resolution =>
    have undeclared := agree resolution (hresolve.trans resolved)
    cases s.freshCaptures with
    | error e => rfl
    | ok captures => exact Plan.make_eq_of_agree captures undeclared

end Session

open Session in
/-- Planning fails with one table exactly as it fails with any other. Two plans have the same spans
and the same deletions, and their edits on a span differ exactly if the name there is not declared
and the tables differ for it. Where the tables agree on all names that are not declared, the plans
are the same, and sessions give the same plan and the same output. -/
theorem Plan.fallback_never_overrides (F G : NamespaceMap) :
    (∀ captures resolution,
      (∀ e, make captures resolution F = .error e ↔ make captures resolution G = .error e) ∧
      (∀ p q, make captures resolution F = .ok p → make captures resolution G = .ok q →
        p.edits.map Edit.span = q.edits.map Edit.span ∧
        ((p.edits.filter fun e => e.action = .delete) =
          q.edits.filter fun e => e.action = .delete) ∧
        ∀ a ∈ p.edits, ∀ b ∈ q.edits, a.span = b.span →
          (a ≠ b ↔ ∃ c ∈ resolution.unqualified.toList, c.span = a.span ∧
            resolution.declared.get? c.text = none ∧ F.get? c.text ≠ G.get? c.text)) ∧
      ((∀ name, resolution.declared.get? name = none → F.get? name = G.get? name) →
        make captures resolution F = make captures resolution G)) ∧
    ∀ parser source objection,
      (∀ resolution, ((start parser source F objection).take resolve).1 = .ok resolution →
        ∀ name, resolution.declared.get? name = none → F.get? name = G.get? name) →
      ((start parser source F objection).take makePlan).1 =
          ((start parser source G objection).take makePlan).1 ∧
        ((start parser source F objection).take fix).1 =
          ((start parser source G objection).take fix).1 := by
  refine ⟨fun captures resolution =>
    ⟨make_eq_error_iff captures resolution F G, ?_, make_eq_of_agree captures⟩,
    fun parser source objection agree => ?_⟩
  · intro p q hp hq
    have alike := inStep_allEdits captures resolution F G
    rw [edits_of_make hp, edits_of_make hq]
    exact ⟨spans_eq_of_inStep alike, deletes_eq_of_inStep alike,
      fun a ha b hb span => edit_ne_iff ha hb span⟩
  · have same := freshPlan_eq_of_agree agree
    have current (table : NamespaceMap) := current_start parser source table objection
    constructor
    · rw [(answers_makePlan (current F)).answer, same, (answers_makePlan (current G)).answer]
    · rw [(answers_fix (current F)).answer, (answers_fix (current G)).answer]
      simp only [freshOutput, same]
      rfl

end UsingRemoval
