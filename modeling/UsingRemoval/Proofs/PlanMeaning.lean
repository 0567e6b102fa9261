import UsingRemoval.Proofs.Planning

/-!
What a plan says, for any captures and any resolution, whether or not a tree gives them. The
captures are inspected in one order, and the first of an unforeseen kind is the error. Otherwise
every claimed span has one edit, and two of them that overlap are the only other reason to fail.
-/

set_option autoImplicit false

namespace UsingRemoval.Plan

/-- The captures in the order of their inspection, each with the kinds it may have. -/
def inspected (captures : CaptureSet) (resolution : Resolution) : List (Capture × List String) :=
  resolution.unqualified.toList.map (·, ["type_identifier", "identifier"]) ++
    (captures.group .usingDecl ++ captures.group .usingNsDecl).map (·, ["using_declaration"])

def Expected (captures : CaptureSet) (resolution : Resolution) : Prop :=
  ∀ p ∈ inspected captures resolution, p.1.kind ∈ p.2

/-- The capture is inspected and has none of the kinds it may have, unlike all before it. -/
def FirstUnexpected (captures : CaptureSet) (resolution : Resolution) (c : Capture) : Prop :=
  ∃ before kinds after, inspected captures resolution = before ++ (c, kinds) :: after ∧
    (∀ p ∈ before, p.1.kind ∈ p.2) ∧ c.kind ∉ kinds

/-- The span is that of a bare name or of a declaration that goes. -/
def Claimed (captures : CaptureSet) (resolution : Resolution) (span : Span) : Prop :=
  ∃ p ∈ inspected captures resolution, p.1.span = span

/-- Of two claimed spans the one that comes first ends before the other begins. -/
def ClaimsApart (captures : CaptureSet) (resolution : Resolution) : Prop :=
  ∀ a b, Claimed captures resolution a → Claimed captures resolution b →
    (a.start < b.start ∨ a.start = b.start ∧ a.stop < b.stop) → a.stop ≤ b.start

/-- What happens to a bare name: the source's own declarations are asked before the fallback. -/
def wantedAction (declared fallback : NamespaceMap) (name : String) : Action :=
  match declared.get? name, fallback.get? name with
  | some scope, _ => .qualify scope
  | none, some scope => .qualify scope
  | none, none => .passThrough

/-- What a plan has to say about its captures. -/
structure Fulfils (captures : CaptureSet) (resolution : Resolution) (fallback : NamespaceMap)
    (plan : Plan) : Prop where
  increasing : plan.edits.Pairwise fun a b =>
    a.span.start < b.span.start ∨ a.span.start = b.span.start ∧ a.span.stop < b.span.stop
  spans : ∀ span, (∃ e ∈ plan.edits, e.span = span) ↔ Claimed captures resolution span
  names : ∀ c ∈ resolution.unqualified.toList,
    ⟨c.span, wantedAction resolution.declared fallback c.text⟩ ∈ plan.edits
  others : ∀ e ∈ plan.edits, (∀ c ∈ resolution.unqualified.toList, c.span ≠ e.span) →
    e.action = .delete
  unresolved : plan.unresolved =
    resolution.unqualified.toList.filter fun c => ⟨c.span, .passThrough⟩ ∈ plan.edits
  counted : plan.changes + plan.unresolved.length = plan.edits.length

section

variable {captures : CaptureSet} {resolution : Resolution} {fallback : NamespaceMap}

theorem make_eq :
    make captures resolution fallback =
      match (inspected captures resolution).find? fun p => !p.2.contains p.1.kind with
      | some p => .error (.unexpectedNode p.1.kind p.1.tag p.1.span.start)
      | none => (checkDisjoint (allEdits captures resolution fallback).toList).map fun _ => {
          edits := (allEdits captures resolution fallback).toList
          unresolved := resolution.unqualified.toList.filter fun c =>
            (resolution.namespaceFor? fallback c.text).isNone } := by
  have inspection : inspected captures resolution =
      resolution.unqualified.toList.map (·, nameKinds) ++
        (deletions captures).map (·, declarationKinds) := rfl
  rw [inspection, List.find?_append, List.find?_map, List.find?_map]
  simp only [make, expectKinds, Function.comp_def, bind, Except.bind]
  cases resolution.unqualified.toList.find? fun c => !nameKinds.contains c.kind with
  | some c => rfl
  | none =>
    cases (deletions captures).find? fun c => !declarationKinds.contains c.kind with
    | some c => rfl
    | none => cases checkDisjoint (allEdits captures resolution fallback).toList <;> rfl

theorem find?_unexpected_iff {c : Capture} :
    (∃ kinds, ((inspected captures resolution).find? fun p => !p.2.contains p.1.kind) =
      some (c, kinds)) ↔ FirstUnexpected captures resolution c := by
  simp only [List.find?_eq_some_iff_append, FirstUnexpected]
  constructor
  · rintro ⟨kinds, bad, before, after, split, good⟩
    exact ⟨before, kinds, after, split, by simpa using good, by simpa using bad⟩
  · rintro ⟨before, kinds, after, split, good, bad⟩
    exact ⟨kinds, by simpa using bad, before, after, split, by simpa using good⟩

theorem exists_firstUnexpected (unexpected : ¬ Expected captures resolution) :
    ∃ c, FirstUnexpected captures resolution c := by
  cases found : (inspected captures resolution).find? fun p => !p.2.contains p.1.kind with
  | none => exact absurd (by simpa [Expected] using found) unexpected
  | some p => exact ⟨p.1, find?_unexpected_iff.1 ⟨p.2, found⟩⟩

theorem make_of_firstUnexpected (fallback : NamespaceMap) {c : Capture}
    (first : FirstUnexpected captures resolution c) :
    make captures resolution fallback = .error (.unexpectedNode c.kind c.tag c.span.start) := by
  obtain ⟨kinds, found⟩ := find?_unexpected_iff.2 first
  rw [make_eq, found]

theorem make_of_expected (fallback : NamespaceMap) (expected : Expected captures resolution) :
    make captures resolution fallback =
      (checkDisjoint (allEdits captures resolution fallback).toList).map fun _ => {
        edits := (allEdits captures resolution fallback).toList
        unresolved := resolution.unqualified.toList.filter fun c =>
          (resolution.namespaceFor? fallback c.text).isNone } := by
  have found : ((inspected captures resolution).find? fun p => !p.2.contains p.1.kind) = none := by
    simpa [Expected] using expected
  rw [make_eq, found]

theorem claimed_iff {span : Span} :
    Claimed captures resolution span ↔
      (∃ c ∈ resolution.unqualified.toList, c.span = span) ∨
        ∃ c ∈ deletions captures, c.span = span := by
  simp [Claimed, inspected, deletions, or_and_right, exists_or]

theorem qualification_eq (c : Capture) :
    qualification resolution fallback c =
      ⟨c.span, wantedAction resolution.declared fallback c.text⟩ := by
  unfold qualification wantedAction Resolution.namespaceFor?
  cases resolution.declared.get? c.text <;> cases fallback.get? c.text <;> rfl

theorem wantedAction_eq_passThrough_iff {name : String} :
    wantedAction resolution.declared fallback name = .passThrough ↔
      resolution.namespaceFor? fallback name = none := by
  unfold wantedAction Resolution.namespaceFor?
  cases resolution.declared.get? name <;> cases fallback.get? name <;> simp

theorem exists_span_allEdits_iff {span : Span} :
    (∃ e ∈ (allEdits captures resolution fallback).toList, e.span = span) ↔
      Claimed captures resolution span := by
  rw [claimed_iff]
  constructor
  · rintro ⟨e, he, rfl⟩
    rcases mem_allEdits.1 he with ⟨c, hc, rfl⟩ | ⟨_, c, hc, rfl⟩
    · exact .inl ⟨c, hc, (qualification_span c).symm⟩
    · exact .inr ⟨c, hc, rfl⟩
  · rintro (⟨c, hc, rfl⟩ | ⟨c, hc, rfl⟩)
    · exact ⟨_, mem_allEdits.2 (.inl ⟨c, hc, rfl⟩), qualification_span c⟩
    · by_cases covered : ∃ u ∈ resolution.unqualified.toList, u.span = c.span
      · obtain ⟨u, hu, hspan⟩ := covered
        exact ⟨_, mem_allEdits.2 (.inl ⟨u, hu, rfl⟩), (qualification_span u).trans hspan⟩
      · have free : ∀ u ∈ resolution.unqualified.toList, u.span ≠ (deletion c).span :=
          fun u hu heq => covered ⟨u, hu, heq⟩
        exact ⟨deletion c, mem_allEdits.2 (.inr ⟨free, c, hc, rfl⟩), rfl⟩

theorem passThrough_mem_allEdits_iff {span : Span} :
    ⟨span, .passThrough⟩ ∈ (allEdits captures resolution fallback).toList ↔
      ∃ c ∈ resolution.unqualified.toList, c.span = span ∧
        resolution.namespaceFor? fallback c.text = none := by
  simp only [← wantedAction_eq_passThrough_iff, mem_allEdits, qualification_eq]
  constructor
  · rintro (⟨c, hc, heq⟩ | ⟨_, d, _, heq⟩)
    · obtain ⟨hspan, haction⟩ := Edit.mk.inj heq
      exact ⟨c, hc, hspan, haction⟩
    · cases (Edit.mk.inj heq).2
  · rintro ⟨c, hc, rfl, haction⟩
    exact .inl ⟨c, hc, by rw [haction]⟩

theorem checkDisjoint_allEdits_iff (fallback : NamespaceMap) :
    checkDisjoint (allEdits captures resolution fallback).toList = .ok () ↔
      ClaimsApart captures resolution := by
  have sorted := (allEdits captures resolution fallback).sorted
  rw [checkDisjoint_ok_iff, isChain_before_iff_pairwise sorted]
  constructor
  · intro before a b ha hb hlt
    obtain ⟨x, hx, rfl⟩ := exists_span_allEdits_iff.2 ha
    obtain ⟨y, hy, rfl⟩ := exists_span_allEdits_iff.2 hb
    -- two edits stand in the list in the order of their spans
    have placed : (allEdits captures resolution fallback).toList.Pairwise fun x y =>
        (compare x.span y.span = .lt → x.Before y) ∧
          (compare y.span x.span = .lt → y.Before x) := by
      refine (sorted.and before).imp ?_
      rintro x y ⟨hxy, hbefore⟩
      refine ⟨fun _ => hbefore, fun hyx => ?_⟩
      rw [Span.compare_eq_lt_iff] at hxy hyx
      omega
    have : Std.Symm fun x y : Edit => (compare x.span y.span = .lt → x.Before y) ∧
        (compare y.span x.span = .lt → y.Before x) := ⟨fun _ _ => And.symm⟩
    have hne : x ≠ y := by
      rintro rfl
      omega
    exact (placed.forall hx hy hne).1 (Span.compare_eq_lt_iff.2 hlt)
  · intro disjoint
    refine sorted.imp_of_mem fun {a b} ha hb hlt => ?_
    exact disjoint a.span b.span (exists_span_allEdits_iff.1 ⟨a, ha, rfl⟩)
      (exists_span_allEdits_iff.1 ⟨b, hb, rfl⟩) (Span.compare_eq_lt_iff.1 hlt)

theorem changes_add_unresolved :
    (allEdits captures resolution fallback).toList.countP Edit.isChange +
      (resolution.unqualified.toList.filter fun c =>
        (resolution.namespaceFor? fallback c.text).isNone).length =
      (allEdits captures resolution fallback).toList.length := by
  let idle := (allEdits captures resolution fallback).toList.filter fun e => !e.isChange
  let unresolved := resolution.unqualified.toList.filter fun c =>
    (resolution.namespaceFor? fallback c.text).isNone
  have members (e : Edit) :
      e ∈ idle ↔ e ∈ unresolved.map fun c => ⟨c.span, .passThrough⟩ := by
    obtain ⟨span, action⟩ := e
    cases action with
    | passThrough =>
      simp [idle, unresolved, Edit.isChange, passThrough_mem_allEdits_iff, and_comm, and_left_comm]
    | delete => simp [idle, Edit.isChange]
    | qualify scope => simp [idle, Edit.isChange]
  have distinctEdits : idle.Nodup := by
    refine ((allEdits captures resolution fallback).sorted.filter _).imp ?_
    rintro a b hlt rfl
    simp at hlt
  have distinctNames : (unresolved.map fun c => (⟨c.span, .passThrough⟩ : Edit)).Nodup := by
    refine List.pairwise_map.2 ((resolution.unqualified.sorted.filter _).imp ?_)
    intro c d hlt heq
    rw [show c.span = d.span from (Edit.mk.inj heq).1] at hlt
    simp at hlt
  have same : unresolved.length = idle.length := by
    rw [((List.perm_ext_iff_of_nodup distinctEdits distinctNames).2 members).length_eq,
      List.length_map]
  rw [List.length_eq_countP_add_countP Edit.isChange]
  simp only [Bool.not_eq_true, Bool.decide_eq_false, List.countP_eq_length_filter]
  exact congrArg _ same

theorem fulfils_allEdits : Fulfils captures resolution fallback {
    edits := (allEdits captures resolution fallback).toList
    unresolved := resolution.unqualified.toList.filter fun c =>
      (resolution.namespaceFor? fallback c.text).isNone } where
  increasing := (allEdits captures resolution fallback).sorted.imp Span.compare_eq_lt_iff.1
  spans _ := exists_span_allEdits_iff
  names c hc := mem_allEdits.2 (.inl ⟨c, hc, qualification_eq c⟩)
  others e he free := by
    rcases mem_allEdits.1 he with ⟨c, hc, rfl⟩ | ⟨_, c, _, rfl⟩
    · exact absurd (qualification_span c).symm (free c hc)
    · rfl
  unresolved := by
    apply List.filter_congr
    intro c hc
    rw [Bool.eq_iff_iff, Option.isNone_iff_eq_none, decide_eq_true_iff,
      passThrough_mem_allEdits_iff]
    constructor
    · intro none
      exact ⟨c, hc, rfl, none⟩
    · rintro ⟨d, hd, hspan, none⟩
      rwa [← resolution.unqualified.eq_of_key_eq hd hc hspan]
  counted := changes_add_unresolved

end

/-- There is a plan exactly if all captures have a kind they may have and no claimed spans overlap.
The plan gives each claimed span its edit and lists the bare names that are left as they are. A
capture of another kind is reported before any overlap, the first one in the order of inspection. -/
theorem make_meaning (captures : CaptureSet) (resolution : Resolution) (fallback : NamespaceMap) :
    ((∃ plan, make captures resolution fallback = .ok plan) ↔
      Expected captures resolution ∧ ClaimsApart captures resolution) ∧
    (∀ plan, make captures resolution fallback = .ok plan →
      Fulfils captures resolution fallback plan) ∧
    (∀ c, FirstUnexpected captures resolution c →
      make captures resolution fallback = .error (.unexpectedNode c.kind c.tag c.span.start)) ∧
    (∀ e, make captures resolution fallback = .error e →
      (∃ c, FirstUnexpected captures resolution c ∧ e = .unexpectedNode c.kind c.tag c.span.start) ∨
        Expected captures resolution ∧ ∃ first second, e = .overlappingEdits first second) := by
  by_cases expected : Expected captures resolution
  · have unoffended (c : Capture) : ¬ FirstUnexpected captures resolution c := by
      rintro ⟨before, kinds, after, split, _, bad⟩
      exact bad (expected (c, kinds) (by simp [split]))
    have made := make_of_expected fallback expected
    rw [← checkDisjoint_allEdits_iff fallback, made]
    cases check : checkDisjoint (allEdits captures resolution fallback).toList with
    | ok _ =>
      refine ⟨by simp [expected, Except.map], ?_, fun c first => absurd first (unoffended c), ?_⟩
      · rintro plan ⟨⟩
        exact fulfils_allEdits
      · rintro e ⟨⟩
    | error e =>
      obtain ⟨first, second, overlap⟩ := checkDisjoint_ne_ok (by rw [check]; exact nofun)
      obtain rfl : e = .overlappingEdits first second :=
        Except.error.inj (check.symm.trans overlap)
      refine ⟨by simp [Except.map], ?_, fun c first => absurd first (unoffended c), ?_⟩
      · rintro plan ⟨⟩
      · rintro e' ⟨⟩
        exact .inr ⟨expected, first, second, rfl⟩
  · obtain ⟨c, first⟩ := exists_firstUnexpected expected
    have made (c : Capture) (first : FirstUnexpected captures resolution c) :=
      make_of_firstUnexpected fallback first
    rw [made c first]
    refine ⟨by simp [expected], by simp, ?_, ?_⟩
    · intro c' first'
      rw [← made c first, made c' first']
    · intro e failed
      exact .inl ⟨c, first, (Except.error.inj failed).symm⟩

end UsingRemoval.Plan
