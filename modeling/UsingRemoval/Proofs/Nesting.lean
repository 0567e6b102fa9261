import Mathlib.Data.List.Pairwise
import UsingRemoval.Node

/-!
How the spans of a syntax tree lie. In a well-formed tree children lie within their parent and
siblings follow each other; hence of any two nodes one is below the other, or their spans are apart.
-/

set_option autoImplicit false

namespace UsingRemoval.Node

/-! ### Nodes below a node -/

theorem preorderAll_eq_flatMap (ns : List Node) : preorderAll ns = ns.flatMap preorder := by
  induction ns with
  | nil => rfl
  | cons n ns ih => rw [preorderAll, ih, List.flatMap_cons]

theorem mem_preorder {root n : Node} :
    n ∈ root.preorder ↔ n = root ∨ ∃ c ∈ root.children, n ∈ c.preorder := by
  cases root with
  | mk label children => simp [preorder, preorderAll_eq_flatMap, Node.children]

theorem self_mem_preorder (n : Node) : n ∈ n.preorder :=
  mem_preorder.2 (.inl rfl)

theorem of_children {P : Node → Prop} (step : ∀ n : Node, (∀ c ∈ n.children, P c) → P n) :
    ∀ n : Node, P n
  | mk label children => step (mk label children) fun c (_ : c ∈ children) => of_children step c

theorem mem_preorder_trans {root n m : Node} (hm : m ∈ n.preorder) (hn : n ∈ root.preorder) :
    m ∈ root.preorder := by
  induction root using of_children with
  | step root ih =>
    rcases mem_preorder.1 hn with rfl | ⟨c, hc, hn⟩
    · exact hm
    · exact mem_preorder.2 (.inr ⟨c, hc, ih c hc hn⟩)

theorem mem_preorder_of_mem_children {root n c : Node} (hn : n ∈ root.preorder)
    (hc : c ∈ n.children) : c ∈ root.preorder :=
  mem_preorder_trans (mem_preorder.2 (.inr ⟨c, hc, self_mem_preorder c⟩)) hn

theorem eq_of_mem_preorder_leaf {n m : Node} (leaf : n.children = []) (h : m ∈ n.preorder) :
    m = n := by
  rcases mem_preorder.1 h with rfl | ⟨c, hc, _⟩
  · rfl
  · simp [leaf] at hc

/-! ### Trees written out -/

def branch (kind : String) (field : Option String) (start stop : Nat)
    (children : List Node := []) : Node :=
  mk ⟨kind, true, false, false, false, field, ⟨start, stop⟩⟩ children

def literal (text : String) (start stop : Nat) : Node :=
  mk ⟨text, false, false, false, false, none, ⟨start, stop⟩⟩ []

/-! ### Spans -/

/-- Children lie within their parent, and siblings are in order and do not overlap. -/
structure Laminar (root : Node) : Prop where
  nested : ∀ n ∈ root.preorder, ∀ c ∈ n.children,
    n.span.start ≤ c.span.start ∧ c.span.stop ≤ n.span.stop
  inOrder : ∀ n ∈ root.preorder, n.children.Pairwise fun a b => a.span.stop ≤ b.span.start

instance (root : Node) : Decidable root.Laminar :=
  decidable_of_iff (_ ∧ _)
    ⟨fun ⟨nested, inOrder⟩ => ⟨nested, inOrder⟩, fun ⟨nested, inOrder⟩ => ⟨nested, inOrder⟩⟩

namespace Laminar

variable {root : Node}

theorem of_mem (laminar : root.Laminar) {n : Node} (hn : n ∈ root.preorder) : n.Laminar where
  nested m hm := laminar.nested m (mem_preorder_trans hm hn)
  inOrder m hm := laminar.inOrder m (mem_preorder_trans hm hn)

theorem within (laminar : root.Laminar) {n : Node} (hn : n ∈ root.preorder) :
    root.span.start ≤ n.span.start ∧ n.span.stop ≤ root.span.stop := by
  induction root using of_children with
  | step root ih =>
    rcases mem_preorder.1 hn with rfl | ⟨c, hc, hn⟩
    · exact ⟨Nat.le_refl _, Nat.le_refl _⟩
    · have hroot := self_mem_preorder root
      have hchild := mem_preorder_of_mem_children hroot hc
      obtain ⟨hstart, hstop⟩ := ih c hc (laminar.of_mem hchild) hn
      obtain ⟨hstart', hstop'⟩ := laminar.nested root hroot c hc
      exact ⟨Nat.le_trans hstart' hstart, Nat.le_trans hstop hstop'⟩

theorem below_or_apart (laminar : root.Laminar) {m n : Node} (hm : m ∈ root.preorder)
    (hn : n ∈ root.preorder) :
    m ∈ n.preorder ∨ n ∈ m.preorder ∨ m.span.stop ≤ n.span.start ∨
      n.span.stop ≤ m.span.start := by
  induction root using of_children with
  | step root ih =>
    have hroot := self_mem_preorder root
    rcases mem_preorder.1 hm with rfl | ⟨c, hc, hmc⟩
    · exact .inr (.inl hn)
    rcases mem_preorder.1 hn with rfl | ⟨d, hd, hnd⟩
    · exact .inl hm
    have hc' := laminar.of_mem (mem_preorder_of_mem_children hroot hc)
    have hd' := laminar.of_mem (mem_preorder_of_mem_children hroot hd)
    by_cases hcd : c = d
    · subst hcd
      exact ih c hc hc' hmc hnd
    · -- the two nodes are below different children, and these are apart
      have apart : root.children.Pairwise fun a b =>
          a.span.stop ≤ b.span.start ∨ b.span.stop ≤ a.span.start :=
        (laminar.inOrder root hroot).imp .inl
      have : Std.Symm fun a b : Node =>
          a.span.stop ≤ b.span.start ∨ b.span.stop ≤ a.span.start := ⟨fun _ _ => Or.symm⟩
      obtain ⟨hmstart, hmstop⟩ := hc'.within hmc
      obtain ⟨hnstart, hnstop⟩ := hd'.within hnd
      rcases apart.forall hc hd hcd with h | h
      · exact .inr (.inr (.inl (by omega)))
      · exact .inr (.inr (.inr (by omega)))

end Laminar

/-- The spans of a tree run forwards within the source, children lie within their parent, and
siblings are in order and do not overlap. -/
structure WellFormed (source : List UInt8) (root : Node) : Prop where
  forward : ∀ n ∈ root.preorder, n.span.start ≤ n.span.stop
  inside : ∀ n ∈ root.preorder, n.span.stop ≤ source.length
  nested : ∀ n ∈ root.preorder, ∀ c ∈ n.children,
    n.span.start ≤ c.span.start ∧ c.span.stop ≤ n.span.stop
  inOrder : ∀ n ∈ root.preorder, n.children.Pairwise fun a b => a.span.stop ≤ b.span.start

instance (source : List UInt8) (root : Node) : Decidable (root.WellFormed source) :=
  decidable_of_iff (_ ∧ _ ∧ _ ∧ _)
    ⟨fun ⟨forward, inside, nested, inOrder⟩ => ⟨forward, inside, nested, inOrder⟩,
      fun ⟨forward, inside, nested, inOrder⟩ => ⟨forward, inside, nested, inOrder⟩⟩

namespace WellFormed

variable {source : List UInt8} {root : Node}

theorem laminar (wf : root.WellFormed source) : root.Laminar :=
  ⟨wf.nested, wf.inOrder⟩

theorem below_or_apart (wf : root.WellFormed source) {m n : Node} (hm : m ∈ root.preorder)
    (hn : n ∈ root.preorder) :
    m ∈ n.preorder ∨ n ∈ m.preorder ∨ m.span.stop ≤ n.span.start ∨
      n.span.stop ≤ m.span.start :=
  wf.laminar.below_or_apart hm hn

end WellFormed

end UsingRemoval.Node
