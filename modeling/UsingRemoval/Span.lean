/-!
Spans of bytes, ordered by where they start and then by where they stop.
-/

set_option autoImplicit false

namespace UsingRemoval

structure Span where
  start : Nat
  stop : Nat
  deriving DecidableEq, Repr, Inhabited

namespace Span

/-- Earlier starts come first; of two spans with one start the shorter comes first. -/
instance : Ord Span :=
  ⟨compareLex (compareOn Span.start) (compareOn Span.stop)⟩

instance : Std.TransOrd Span :=
  inferInstanceAs (Std.TransCmp (compareLex (compareOn Span.start) (compareOn Span.stop)))

instance : Std.LawfulEqOrd Span where
  eq_of_compare {a b} h := by
    have h : compareLex (compareOn Span.start) (compareOn Span.stop) a b = .eq := h
    rw [compareLex_eq_eq] at h
    have hs : a.start = b.start := Std.LawfulEqOrd.eq_of_compare h.1
    have ht : a.stop = b.stop := Std.LawfulEqOrd.eq_of_compare h.2
    cases a; cases b; simp_all
  compare_self {a} := Std.ReflCmp.compare_self

/-- The bytes of `source` under the span, as far as the source reaches. -/
def slice (span : Span) (source : List UInt8) : List UInt8 :=
  (source.drop span.start).take (span.stop - span.start)

/-- The bytes under the span, or `none` if it runs backwards or leaves the source. -/
def slice? (span : Span) (source : List UInt8) : Option (List UInt8) :=
  if span.start ≤ span.stop ∧ span.stop ≤ source.length then some (span.slice source) else none

def describe (span : Span) : String :=
  s!"({span.start}, {span.stop})"

end Span

end UsingRemoval
