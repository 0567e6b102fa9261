import UsingRemoval.Proofs.Nesting
import UsingRemoval.Survey

/-!
Finding a node again by its span and kind. The search descends to the deepest node around the span
and climbs from there. In a well-formed tree it passes every node that has the span, provided the
span is not empty: such a node is the only child of its parent that reaches around the span, and
what stands below it on the path has the same span. What is found is then the deepest node that has
both, and a node that is the only one of its span and kind is found by its own capture.
-/

set_option autoImplicit false

namespace UsingRemoval.Node

variable {source : List UInt8} {root n : Node} {wanted : Span}

private theorem descendAmong_eq_find? (path cs : List Node) :
    descendAmong wanted path cs =
      match cs.find? fun c => !skips wanted c with
      | none => path
      | some c => if wanted.start < c.span.start then path else c.descend wanted path := by
  induction cs with
  | nil => rfl
  | cons c cs ih =>
    rw [descendAmong]
    by_cases hskip : skips wanted c
    · simp only [hskip, if_true, List.find?_cons, Bool.not_true, ih]
    · simp only [hskip, Bool.false_eq_true, if_false, List.find?_cons, Bool.not_false]

private theorem descend_eq_find? (above : List Node) (n : Node) :
    n.descend wanted above =
      match n.children.find? fun c => !skips wanted c with
      | none => n :: above
      | some c => if wanted.start < c.span.start then n :: above
        else c.descend wanted (n :: above) := by
  cases n with
  | mk label children =>
    rw [descend, descendAmong_eq_find?]
    rfl

private theorem stop_le_of_not_skips {c : Node} (h : (!skips wanted c) = true) :
    wanted.stop ≤ c.span.stop := by
  have hfalse : skips wanted c = false := by simpa using h
  have hstop : ¬ c.span.stop < wanted.stop := by
    intro hlt
    simp [skips, hlt] at hfalse
  omega

private theorem exists_descend_eq (wanted : Span) (n : Node) (above : List Node) :
    ∃ deeper, n.descend wanted above = deeper ++ n :: above ∧
      ∀ m ∈ deeper, m ∈ n.preorder ∧
        m.span.start ≤ wanted.start ∧ wanted.stop ≤ m.span.stop := by
  induction n using of_children generalizing above with
  | step n ih =>
    rw [descend_eq_find?]
    cases hfind : n.children.find? fun c => !skips wanted c with
    | none => exact ⟨[], rfl, by simp⟩
    | some c =>
      have hc : c ∈ n.children := List.mem_of_find?_eq_some hfind
      have hstop := stop_le_of_not_skips (List.find?_some (p := fun c => !skips wanted c) hfind)
      by_cases hstart : wanted.start < c.span.start
      · exact ⟨[], by simp [hstart], by simp⟩
      · obtain ⟨deeper, hpath, hdeeper⟩ := ih c hc (n :: above)
        refine ⟨deeper ++ [c], ?_, ?_⟩
        · simp only [hstart, if_false, hpath, List.append_assoc, List.singleton_append]
        · intro m hm
          rcases List.mem_append.1 hm with hm | hm
          · obtain ⟨hbelow, hspan⟩ := hdeeper m hm
            exact ⟨mem_preorder.2 (.inr ⟨c, hc, hbelow⟩), hspan⟩
          · rw [List.mem_singleton.1 hm]
            exact ⟨mem_preorder.2 (.inr ⟨c, hc, self_mem_preorder c⟩), by omega, hstop⟩

private theorem find?_not_skips (laminar : root.Laminar)
    (nonempty : n.span.start < n.span.stop) {c : Node} (hc : c ∈ root.children)
    (hn : n ∈ c.preorder) : (root.children.find? fun d => !skips n.span d) = some c := by
  have hroot := self_mem_preorder root
  obtain ⟨hstart, hstop⟩ :=
    (laminar.of_mem (mem_preorder_of_mem_children hroot hc)).within hn
  obtain ⟨before, after, hchildren⟩ := List.append_of_mem hc
  have hordered := laminar.inOrder root hroot
  rw [hchildren] at hordered ⊢
  rw [List.find?_append]
  -- earlier siblings end before the node begins, so the search passes over all of them
  have hbefore : (before.find? fun d => !skips n.span d) = none := by
    rw [List.find?_eq_none]
    intro b hb
    have hbc : b.span.stop ≤ c.span.start :=
      (List.pairwise_append.1 hordered).2.2 b hb c List.mem_cons_self
    have hlt : b.span.stop < n.span.stop := by omega
    simp [skips, hlt]
  have hkept : (!skips n.span c) = true := by
    have hlong : ¬ c.span.stop < n.span.stop := by omega
    have hwide : ¬ c.span.start = c.span.stop := by omega
    have hlate : ¬ c.span.stop ≤ n.span.start := by omega
    simp [skips, hlong, hwide, hlate]
  rw [hbefore, Option.none_or,
    List.find?_cons_of_pos (p := fun d => !skips n.span d) hkept]

/-- A node with a span of its own is on the path to that span, and what is deeper on the path is
below it and has its span. -/
theorem descend_of_mem (laminar : root.Laminar) (hn : n ∈ root.preorder)
    (nonempty : n.span.start < n.span.stop) (above : List Node) :
    ∃ deeper up, root.descend n.span above = deeper ++ n :: up ∧
      ∀ m ∈ deeper, m ∈ n.preorder ∧ m.span = n.span := by
  induction root using of_children generalizing above with
  | step root ih =>
    rcases mem_preorder.1 hn with rfl | ⟨c, hc, hnc⟩
    · obtain ⟨deeper, hpath, hdeeper⟩ := exists_descend_eq n.span n above
      refine ⟨deeper, above, hpath, ?_⟩
      intro m hm
      obtain ⟨hbelow, hstart, hstop⟩ := hdeeper m hm
      obtain ⟨hstart', hstop'⟩ := laminar.within hbelow
      refine ⟨hbelow, ?_⟩
      have hs : m.span.start = n.span.start := by omega
      have ht : m.span.stop = n.span.stop := by omega
      exact congrArg₂ Span.mk hs ht
    · have below := laminar.of_mem (mem_preorder_of_mem_children (self_mem_preorder root) hc)
      have hstart := (below.within hnc).1
      obtain ⟨deeper, up, hpath, hdeeper⟩ := ih c hc below hnc (root :: above)
      refine ⟨deeper, up, ?_, hdeeper⟩
      rw [descend_eq_find?, find?_not_skips laminar nonempty hc hnc]
      simp only [Nat.not_lt.2 hstart, if_false, hpath]

private theorem climb_of_span {kind : String} {deeper : List Node}
    (hdeeper : ∀ m ∈ deeper, m.span = n.span) (hkind : n.kind = kind) (up : List Node) :
    ∃ found rest, climb n.span kind (deeper ++ n :: up) = some (found, rest) ∧
      found ∈ deeper ++ [n] ∧ found.kind = kind ∧ found.span = n.span := by
  induction deeper with
  | nil => exact ⟨n, up, by simp [climb, hkind], by simp, hkind, rfl⟩
  | cons m deeper ih =>
    obtain ⟨hm, hrest⟩ := List.forall_mem_cons.1 hdeeper
    rw [List.cons_append, climb.eq_def]
    by_cases hmkind : m.kind = kind
    · exact ⟨m, deeper ++ n :: up, by simp [hmkind, hm], by simp, hmkind, hm⟩
    · obtain ⟨found, rest, hclimb, hmem, hfound⟩ := ih hrest
      refine ⟨found, rest, ?_, List.mem_cons_of_mem m hmem, hfound⟩
      -- the next node up is one of those with the span
      cases deeper with
      | nil => simpa [hmkind] using hclimb
      | cons parent deeper =>
        have hparent : parent.span = n.span := hrest parent List.mem_cons_self
        simpa [hmkind, hparent] using hclimb

theorem locate?_of_mem (laminar : root.Laminar) (hn : n ∈ root.preorder)
    (nonempty : n.span.start < n.span.stop) :
    ∃ found up, root.locate? n.span n.kind = some (found, up) ∧ found ∈ n.preorder ∧
      found.kind = n.kind ∧ found.span = n.span := by
  obtain ⟨deeper, up, hpath, hdeeper⟩ := descend_of_mem laminar hn nonempty []
  obtain ⟨found, rest, hclimb, hmem, hkind, hspan⟩ :=
    climb_of_span (fun m hm => (hdeeper m hm).2) rfl up
  refine ⟨found, rest, ?_, ?_, hkind, hspan⟩
  · rw [locate?, hpath, hclimb]
  · rcases List.mem_append.1 hmem with hmem | hmem
    · exact (hdeeper found hmem).1
    · rw [List.mem_singleton.1 hmem]
      exact self_mem_preorder n

private theorem climb_eq_some {kind : String} {path up : List Node} {m : Node}
    (found : climb wanted kind path = some (m, up)) :
    m ∈ path ∧ m.span = wanted ∧ m.kind = kind := by
  induction path with
  | nil => simp [climb] at found
  | cons n rest ih =>
    rw [climb.eq_def] at found
    by_cases hn : n.kind = kind ∧ n.span = wanted
    · simp only [hn, and_self, if_true, Option.some.injEq, Prod.mk.injEq] at found
      obtain ⟨rfl, -⟩ := found
      exact ⟨List.mem_cons_self, hn.2, hn.1⟩
    · simp only [hn, if_false] at found
      cases rest with
      | nil => simp at found
      | cons parent rest =>
        by_cases hparent : parent.span = wanted
        · simp only [hparent, if_true] at found
          obtain ⟨hm, hspan⟩ := ih found
          exact ⟨List.mem_cons_of_mem n hm, hspan⟩
        · simp [hparent] at found

theorem locate?_eq_some {kind : String} {m : Node} {up : List Node}
    (found : root.locate? wanted kind = some (m, up)) :
    m ∈ root.preorder ∧ m.span = wanted ∧ m.kind = kind := by
  obtain ⟨hm, hspan, hkind⟩ := climb_eq_some found
  refine ⟨?_, hspan, hkind⟩
  obtain ⟨deeper, hpath, hdeeper⟩ := exists_descend_eq wanted root []
  rw [hpath] at hm
  rcases List.mem_append.1 hm with hm | hm
  · exact (hdeeper m hm).1
  · rw [List.mem_singleton.1 hm]
    exact self_mem_preorder root

theorem Laminar.locate?_of_unshared (laminar : root.Laminar) (hn : n ∈ root.preorder)
    (nonempty : n.span.start < n.span.stop)
    (unshared : ∀ m ∈ root.preorder, m.kind = n.kind → m.span = n.span → m = n) :
    ∃ up, root.locate? n.span n.kind = some (n, up) := by
  obtain ⟨found, up, hfound, hbelow, hkind, hspan⟩ := locate?_of_mem laminar hn nonempty
  have hmem := mem_preorder_trans hbelow hn
  exact ⟨up, by rw [hfound, unshared found hmem hkind hspan]⟩

theorem locate?_of_unshared (wf : root.WellFormed source) (hn : n ∈ root.preorder)
    (nonempty : n.span.start < n.span.stop)
    (unshared : ∀ m ∈ root.preorder, m.kind = n.kind → m.span = n.span → m = n) :
    ∃ up, root.locate? n.span n.kind = some (n, up) :=
  wf.laminar.locate?_of_unshared hn nonempty unshared

/-- A node of the tree with this span and kind that is below every other such node. -/
structure Deepest (root : Node) (span : Span) (kind : String) (m : Node) : Prop where
  mem : m ∈ root.preorder
  span_eq : m.span = span
  kind_eq : m.kind = kind
  below : ∀ n ∈ root.preorder, n.span = span → n.kind = kind → m ∈ n.preorder

/-- A capture with a span that is not empty is located exactly if some node has its span and kind,
and then at the deepest such node. Hence the capture of a node that is not empty, and is the only one
of its span and kind, is located at that node. -/
theorem locate?_exact (laminar : root.Laminar) :
    (∀ c : Capture, c.span.start < c.span.stop →
      ((root.locate? c.span c.kind).isSome ↔
        ∃ n ∈ root.preorder, n.span = c.span ∧ n.kind = c.kind) ∧
      ∀ m up, root.locate? c.span c.kind = some (m, up) → Deepest root c.span c.kind m) ∧
    ∀ n ∈ root.preorder, n.span.start < n.span.stop →
      (∀ m ∈ root.preorder, m.kind = n.kind → m.span = n.span → m = n) →
      ∀ source tag, let c := Capture.ofNode source tag n
        ∃ up, root.locate? c.span c.kind = some (n, up) := by
  refine ⟨fun c nonempty => ⟨⟨fun located => ?_, ?_⟩, fun m up located => ?_⟩, ?_⟩
  · obtain ⟨⟨m, up⟩, hm⟩ := Option.isSome_iff_exists.1 located
    exact ⟨m, locate?_eq_some hm⟩
  · rintro ⟨n, hn, hspan, hkind⟩
    obtain ⟨m, up, hm, _⟩ := locate?_of_mem laminar hn (hspan ▸ nonempty)
    rw [← hspan, ← hkind, hm]
    rfl
  · obtain ⟨hm, hspan, hkind⟩ := locate?_eq_some located
    refine ⟨hm, hspan, hkind, fun n hn hnspan hnkind => ?_⟩
    -- the search for the capture is the search for `n`, and that one ends at or below `n`
    obtain ⟨found, _, hfound, below, _⟩ := locate?_of_mem laminar hn (hnspan ▸ nonempty)
    rw [hnspan, hnkind, located] at hfound
    cases hfound
    exact below
  · intro n hn nonempty unshared source tag
    exact laminar.locate?_of_unshared hn nonempty unshared

/-- The type `int` in a list of template arguments. -/
def intType : Node :=
  .branch "primitive_type" (some "type") 1 4

def intDescriptor : Node :=
  .branch "type_descriptor" none 1 4 [intType]

/-- The arguments `<int>` with a description of a description between two missing tokens. -/
def describedTwice : Node :=
  .branch "template_argument_list" none 0 5 [
    .literal "<" 0 1,
    .mk ⟨",", false, true, false, false, none, ⟨1, 1⟩⟩ [],
    .branch "type_descriptor" none 1 4 [intDescriptor],
    .mk ⟨",", false, true, false, false, none, ⟨4, 4⟩⟩ [],
    .literal ">" 4 5]

theorem locate?_exact_describedTwice :
    describedTwice.Laminar ∧
    (∃ up, describedTwice.locate? ⟨1, 4⟩ "type_descriptor" = some (intDescriptor, up)) ∧
    ∃ up, describedTwice.locate? ⟨1, 4⟩ "primitive_type" = some (intType, up) := by
  have laminar : describedTwice.Laminar := by decide
  have hdescriptor : intDescriptor ∈ describedTwice.preorder :=
    .tail _ (.tail _ (.tail _ (.tail _ (.head _))))
  have htype := mem_preorder_of_mem_children hdescriptor (.head _)
  refine ⟨laminar, ?_, ?_⟩
  · obtain ⟨located, deepest⟩ := (locate?_exact laminar).1
      ⟨⟨1, 4⟩, "type_descriptor", "int", .type⟩ (by decide)
    obtain ⟨⟨m, up⟩, hm⟩ :=
      Option.isSome_iff_exists.1 (located.2 ⟨intDescriptor, hdescriptor, rfl, rfl⟩)
    obtain ⟨_, _, kind, below⟩ := deepest m up hm
    rcases List.mem_cons.1 (below intDescriptor hdescriptor rfl rfl) with rfl | hm'
    · exact ⟨up, hm⟩
    · rw [List.mem_singleton.1 hm'] at kind
      contradiction
  · have alone : (describedTwice.preorder.filter fun m => m.kind = "primitive_type") = [intType] :=
      rfl
    have unshared (m : Node) (hm : m ∈ describedTwice.preorder) (hkind : m.kind = intType.kind) :
        m = intType := by
      have hfilter : m ∈ describedTwice.preorder.filter fun m => m.kind = "primitive_type" :=
        List.mem_filter.2 ⟨hm, decide_eq_true hkind⟩
      rw [alone] at hfilter
      exact List.mem_singleton.1 hfilter
    exact (locate?_exact laminar).2 intType htype (by decide)
      (fun m hm hkind _ => unshared m hm hkind) (Utf8.encode "<int>") .type

end UsingRemoval.Node
