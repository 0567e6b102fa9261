import UsingRemoval.Proofs.Characters
import UsingRemoval.Proofs.Imports
import UsingRemoval.Proofs.Lines

/-!
An imported name, taken apart and put together again. Its levels give the scopes from the outside
in and the innermost name; joined by `::` these are the text of the name as it was written. So an
edit that qualifies an occurrence of the innermost name writes the imported name in its place.
-/

set_option autoImplicit false

namespace UsingRemoval

namespace Edit

section

variable {source : List UInt8} {earlier later : List Edit} {e : Edit}

private theorem slice_take {s : Span} {n : Nat} (h : s.stop ≤ n) :
    s.slice (source.take n) = s.slice source := by
  rw [Span.slice, Span.slice, List.drop_take, List.take_take]
  congr 1
  omega

private theorem slice_gap_take (he : e.span.start ≤ source.length)
    (starts : ∀ d ∈ earlier, d.span.start ≤ e.span.start) (start : Nat) :
    Span.slice ⟨start, gapStop source (earlier ++ e :: later)⟩ source =
      Span.slice ⟨start, gapStop (source.take e.span.start) earlier⟩
        (source.take e.span.start) := by
  cases earlier with
  | nil =>
    have hlength : gapStop (source.take e.span.start) [] = e.span.start := by
      simp [gapStop, he]
    rw [hlength, slice_take (Nat.le_refl _)]
    rfl
  | cons d earlier =>
    have hd : d.span.start ≤ e.span.start := starts d List.mem_cons_self
    exact (slice_take hd).symm

private theorem segments_append (he : e.span.start ≤ source.length)
    (starts : ∀ d ∈ earlier, d.span.start ≤ e.span.start)
    (stops : ∀ d ∈ earlier, d.span.stop ≤ e.span.start) :
    segments source (earlier ++ e :: later) =
      segments (source.take e.span.start) earlier ++ segments source (e :: later) := by
  induction earlier with
  | nil => rfl
  | cons d earlier ih =>
    obtain ⟨_, hstarts⟩ := List.forall_mem_cons.1 starts
    obtain ⟨hd, hstops⟩ := List.forall_mem_cons.1 stops
    rw [List.cons_append, segments, segments, ih hstarts hstops, slice_take hd,
      slice_gap_take he hstarts]
    simp only [List.append_assoc]

theorem applyAll_append (inside : ∀ d ∈ earlier ++ e :: later, d.Within source)
    (disjoint : Plan.checkDisjoint (earlier ++ e :: later) = .ok ()) :
    ∃ before after, applyAll (source.take e.span.start) earlier = some before ∧
      applyFrom source (e.resume source) later = some after ∧
      applyAll source (earlier ++ e :: later) =
        some (before ++ e.body (e.span.slice source) ++ after) := by
  have chain := (Plan.checkDisjoint_ok_iff _).1 disjoint
  have he := inside e (by simp)
  have stops := stop_le_of_mem_earlier inside chain
  have starts : ∀ d ∈ earlier, d.span.start ≤ e.span.start := by
    intro d hd
    exact (inside d (List.mem_append_left _ hd)).1.trans (stops d hd)
  have hlater : ∀ d ∈ later, d.Within source := by
    intro d hd
    exact inside d (List.mem_append_right _ (List.mem_cons_of_mem e hd))
  refine ⟨_, _, applyFrom_eq_segments (within_take inside chain) 0,
    applyFrom_eq_segments hlater _, ?_⟩
  rw [applyAll, applyFrom_eq_segments inside, slice_gap_take (he.1.trans he.2) starts,
    segments_append (he.1.trans he.2) starts stops, segments, slice_resume]
  simp only [List.append_assoc]

end

end Edit

namespace Node

/-- A name with a scope, written as the scope, `::` and the name. -/
structure IsLevel (source : List UInt8) (n scope name : Node) : Prop where
  scope_eq : n.child? "scope" = some scope
  name_eq : n.child? "name" = some name
  spelled : n.span.slice source =
    scope.span.slice source ++ Utf8.encode "::" ++ name.span.slice source

/-- A name written with these scopes, from the outside in, around a leaf that has not both a scope
and a name. -/
inductive Chain (source : List UInt8) : Node → List Node → Node → Prop where
  | last {n scope leaf : Node} (level : IsLevel source n scope leaf)
      (ends : leaf.child? "scope" = none ∨ leaf.child? "name" = none) :
      Chain source n [scope] leaf
  | level {n scope next leaf : Node} {scopes : List Node} (level : IsLevel source n scope next)
      (rest : Chain source next scopes leaf) : Chain source n (scope :: scopes) leaf

section

variable {source : List UInt8} {n leaf : Node} {scopes : List Node}

theorem IsLevel.levels_eq {scope name : Node} (level : IsLevel source n scope name) :
    n.levels = (scope, name) :: name.levels := by
  rw [Node.levels_eq, level.scope_eq, level.name_eq]

theorem IsLevel.text_eq {scope name : Node} (level : IsLevel source n scope name) :
    n.text source = scope.text source ++ "::" ++ name.text source := by
  rw [text, level.spelled, Utf8.decodeLossy_scoped]
  rfl

theorem Chain.scopes_ne_nil (chain : Chain source n scopes leaf) : scopes ≠ [] := by
  cases chain <;> exact List.cons_ne_nil _ _

theorem Chain.levels_eq (chain : Chain source n scopes leaf) :
    n.levels.map Prod.fst = scopes ∧ n.levels.getLast?.map Prod.snd = some leaf := by
  induction chain with
  | @last n scope leaf level ends =>
    have hends : leaf.levels = [] := by
      rw [Node.levels_eq]
      rcases ends with h | h
      · rw [h]
      · rw [h]
        cases leaf.child? "scope" <;> rfl
    rw [level.levels_eq, hends]
    exact ⟨rfl, rfl⟩
  | @level n scope next leaf scopes level rest ih =>
    obtain ⟨hscopes, hleaf⟩ := ih
    rw [level.levels_eq]
    refine ⟨by rw [List.map_cons, hscopes], ?_⟩
    -- the levels inside are not empty, so the last of them stays the last
    obtain ⟨innermost, hlast, rfl⟩ := Option.map_eq_some_iff.1 hleaf
    rw [List.getLast?_cons, hlast]
    rfl

theorem Chain.splitQualified?_eq (chain : Chain source n scopes leaf) :
    n.splitQualified? source =
      some (leaf.text source, "::".intercalate (scopes.map (·.text source))) := by
  obtain ⟨rfl, hleaf⟩ := chain.levels_eq
  obtain ⟨innermost, hlast, rfl⟩ := Option.map_eq_some_iff.1 hleaf
  rw [splitQualified?, hlast, List.map_map]
  rfl

theorem Chain.text_eq (chain : Chain source n scopes leaf) :
    "::".intercalate (scopes.map (·.text source)) ++ "::" ++ leaf.text source = n.text source := by
  induction chain with
  | last level ends => rw [List.map_singleton, String.intercalate_singleton, level.text_eq]
  | @level n scope next leaf scopes level rest ih =>
    have hscopes : scopes.map (·.text source) ≠ [] := by simpa using rest.scopes_ne_nil
    rw [List.map_cons, String.intercalate_cons_of_ne_nil hscopes, level.text_eq, ← ih]
    simp only [String.append_assoc]

end

/-- A written name splits into its leaf and its scopes joined by `::`, and these joined by `::` are
its text. Qualifying an occurrence of the leaf, among other edits, puts that text in its place, and
the very bytes of the name if neither of the two cuts a character of the source. -/
theorem written_name_rebuilt {source : List UInt8} {n leaf : Node} {scopes : List Node}
    (chain : Chain source n scopes leaf) :
    ∃ qualifier, n.splitQualified? source = some (leaf.text source, qualifier) ∧
      qualifier = "::".intercalate (scopes.map (·.text source)) ∧
      qualifier ++ "::" ++ leaf.text source = n.text source ∧
      ∀ (earlier later : List Edit) (span : Span),
        (∀ e ∈ earlier ++ ⟨span, .qualify qualifier⟩ :: later, e.Within source) →
        Plan.checkDisjoint (earlier ++ ⟨span, .qualify qualifier⟩ :: later) = .ok () →
        Utf8.decodeLossy (span.slice source) = leaf.text source →
        ∃ before written after,
          Edit.applyAll (source.take span.start) earlier = some before ∧
          Edit.applyFrom source span.stop later = some after ∧
          Edit.applyAll source (earlier ++ ⟨span, .qualify qualifier⟩ :: later) =
            some (before ++ written ++ after) ∧
          Utf8.decodeLossy written = n.text source ∧
          (Utf8.Valid source → Utf8.Uncut source n.span → Utf8.Uncut source span →
            written = n.span.slice source) := by
  refine ⟨_, chain.splitQualified?_eq, rfl, chain.text_eq, ?_⟩
  intro earlier later span inside disjoint occurrence
  obtain ⟨before, after, hbefore, hafter, happly⟩ := Edit.applyAll_append inside disjoint
  refine ⟨before, _, after, hbefore, hafter, happly, ?_, ?_⟩
  · change Utf8.decodeLossy (Utf8.encode _ ++ Utf8.encode "::" ++ span.slice source) = _
    rw [Utf8.decodeLossy_scoped, Utf8.decodeLossy_encode, occurrence, chain.text_eq]
  · intro valid uncutName uncut
    have hname : Utf8.encode (n.text source) = n.span.slice source :=
      (valid.slice uncutName).encode_decodeLossy
    have hleaf := (valid.slice uncut).encode_decodeLossy
    rw [occurrence] at hleaf
    rw [← hname, ← chain.text_eq, Utf8.encode_append, Utf8.encode_append, hleaf]
    rfl

theorem written_name_rebuilt_nestedName :
    let source := Utf8.encode "using a::b::c;\nc x;\n"
    Session.nestedName.splitQualified? source = some ("c", "a::b") ∧
      Edit.applyAll source [⟨⟨0, 14⟩, .delete⟩, ⟨⟨15, 16⟩, .qualify "a::b"⟩] =
        some (Session.nestedName.span.slice source ++ Utf8.encode " x;\n") := by
  intro source
  have chain : Chain source Session.nestedName _ _ :=
    .level ⟨rfl, rfl, by decide +kernel⟩ (.last ⟨rfl, rfl, by decide +kernel⟩ (.inl rfl))
  obtain ⟨qualifier, split, hqualifier, _, rebuilt⟩ := written_name_rebuilt chain
  obtain rfl : qualifier = "a::b" := hqualifier.trans (by decide +kernel)
  obtain ⟨before, written, after, hbefore, hafter, happly, _, exactly⟩ :=
    rebuilt [⟨⟨0, 14⟩, .delete⟩] [] ⟨15, 16⟩ (by decide +kernel) rfl (by decide +kernel)
  have hnothing : Edit.applyAll (source.take 15) [⟨⟨0, 14⟩, .delete⟩] = some [] := by
    decide +kernel
  have hrest : Edit.applyFrom source 16 [] = some (Utf8.encode " x;\n") := by decide +kernel
  obtain rfl := Option.some.inj (hbefore.symm.trans hnothing)
  obtain rfl := Option.some.inj (hafter.symm.trans hrest)
  rw [exactly ⟨_, rfl⟩ (by decide +kernel) (by decide +kernel)] at happly
  exact ⟨split, happly⟩

end Node

end UsingRemoval
