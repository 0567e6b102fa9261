import Mathlib.Data.List.Dedup
import UsingRemoval.Proofs.LatestImport

/-!
What a set of captures holds after captures were filed one after another, in any order. Under a tag
it holds the first capture of each span, in span order, so the order of filing shows only in which of
several captures with one tag and one span is kept. Where those are alike it does not show at all,
neither in the set nor in anything that is made of it.
-/

set_option autoImplicit false

namespace UsingRemoval

namespace Ordered

universe u v

variable {α : Type u} {κ : Type v} [Ord κ] {key : α → κ}

theorem filter_place_of_not (key : α → κ) {p : α → Bool} {x : α} (hx : p x = false) (l : List α) :
    (place key true x l).filter p = l.filter p := by
  induction l with
  | nil => simp [place, hx]
  | cons y ys ih =>
    rw [place]
    split
    · simp [hx]
    · rfl
    · rw [List.filter_cons, List.filter_cons, ih]

variable [Std.LawfulEqOrd κ]

private theorem nodup_toList (s : Ordered key) : s.toList.Nodup := by
  refine s.sorted.imp ?_
  rintro a _ hlt rfl
  simp at hlt

theorem contains_iff {s : Ordered key} {k : κ} :
    s.contains k = true ↔ ∃ a ∈ s.toList, key a = k := by
  simp only [contains, Option.isSome_iff_exists, find?_eq_some_iff]

variable [Std.TransOrd κ]

theorem ext_mem {s t : Ordered key} (same : ∀ a, a ∈ s.toList ↔ a ∈ t.toList) : s = t := by
  have perm := (List.perm_ext_iff_of_nodup s.nodup_toList t.nodup_toList).2 same
  apply ext
  apply perm.eq_of_pairwise ?_ s.sorted t.sorted
  intro a b _ _ hab hba
  exact absurd hba (Std.OrientedCmp.not_lt_of_lt hab)

end Ordered

namespace CaptureSet

variable {l : List Capture} {tag : Tag} {c : Capture}

theorem add_ofList (l : List Capture) (c : Capture) : ((ofList l).add c).2 = ofList (l ++ [c]) := by
  rw [ofList, ofList, List.foldl_append]
  rfl

theorem add_fst_iff {set : CaptureSet} :
    (set.add c).1 = true ↔ ∀ d ∈ set.group c.tag, d.span ≠ c.span := by
  have taken : set.contains c.slot = true ↔ ∃ d ∈ set.group c.tag, d.span = c.span := by
    rw [Ordered.contains_iff]
    constructor
    · rintro ⟨d, hd, hslot⟩
      obtain ⟨htag, hspan⟩ := Slot.mk.inj hslot
      exact ⟨d, mem_group.2 ⟨hd, htag⟩, hspan⟩
    · rintro ⟨d, hd, hspan⟩
      obtain ⟨hd, htag⟩ := mem_group.1 hd
      exact ⟨d, hd, congrArg₂ Slot.mk htag hspan⟩
  have answer : (set.add c).1 = !set.contains c.slot := rfl
  rw [answer, Bool.not_eq_true', ← Bool.not_eq_true, taken]
  push Not
  rfl

theorem group_add_of_ne (set : CaptureSet) (other : tag ≠ c.tag) :
    (set.add c).2.group tag = set.group tag := by
  have foreign : (c.tag == tag) = false := beq_false_of_ne other.symm
  exact Ordered.filter_place_of_not Capture.slot (p := fun d => d.tag == tag) foreign set.toList

theorem count_ofList (l : List Capture) (tag : Tag) :
    (ofList l).count tag =
      ((l.filter fun c => c.tag = tag).map Capture.span).dedup.length := by
  have distinct : (((ofList l).group tag).map Capture.span).Nodup := by
    refine List.pairwise_map.2 ((pairwise_group (ofList l) tag).imp ?_)
    intro c d earlier same
    rw [same, Span.Earlier] at earlier
    omega
  have members (span : Span) : span ∈ ((ofList l).group tag).map Capture.span ↔
      span ∈ ((l.filter fun c => c.tag = tag).map Capture.span).dedup := by
    rw [List.mem_dedup, List.mem_map, exists_mem_group_ofList_iff]
    simp [and_assoc]
  have perm := (List.perm_ext_iff_of_nodup distinct (List.nodup_dedup _)).2 members
  rw [← perm.length_eq, List.length_map, count]

/-- Where captures of one slot are alike, the order of filing leaves no trace. -/
theorem ofList_eq_of_perm {m : List Capture} (perm : l.Perm m)
    (alike : ∀ c ∈ l, ∀ d ∈ l, c.tag = d.tag → c.span = d.span → c = d) : ofList m = ofList l := by
  have slots {k : List Capture} (same : ∀ c ∈ k, c ∈ l) :
      ∀ c ∈ k, ∀ d ∈ k, c.slot = d.slot → c = d := by
    intro c hc d hd hslot
    obtain ⟨htag, hspan⟩ := Slot.mk.inj hslot
    exact alike c (same c hc) d (same d hd) htag hspan
  apply Ordered.ext_mem
  intro c
  rw [mem_ofList, mem_ofList, Ordered.firstIn_iff_mem (slots fun c hc => perm.mem_iff.2 hc),
    Ordered.firstIn_iff_mem (slots fun c hc => hc)]
  exact perm.mem_iff.symm

/-- Captures filed one after another: each tag holds the first of each span that was filed under it,
in strict span order and nothing else. Filing says whether the span was new under its tag, and leaves
the other tags alone. If captures of one tag and span are alike, another order gives the same
captures, the same bare names and the same plan. -/
theorem filed_exactly (l : List Capture) :
    (∀ tag,
      (∀ c, c ∈ (ofList l).group tag ↔ c.tag = tag ∧ Ordered.FirstIn Capture.slot l c) ∧
      ((ofList l).group tag).Pairwise (fun c d =>
        c.span.start < d.span.start ∨ c.span.start = d.span.start ∧ c.span.stop < d.span.stop) ∧
      (∀ span, (∃ c ∈ (ofList l).group tag, c.span = span) ↔
        ∃ c ∈ l, c.tag = tag ∧ c.span = span) ∧
      (ofList l).count tag =
        ((l.filter fun c => c.tag = tag).map Capture.span).dedup.length) ∧
    (∀ c,
      ((ofList l).add c).2 = ofList (l ++ [c]) ∧
      (((ofList l).add c).1 = true ↔ ∀ d ∈ (ofList l).group c.tag, d.span ≠ c.span) ∧
      ∀ tag, tag ≠ c.tag → ((ofList l).add c).2.group tag = (ofList l).group tag) ∧
    ∀ m, l.Perm m → (∀ c ∈ l, ∀ d ∈ l, c.tag = d.tag → c.span = d.span → c = d) →
      (∀ tag, (ofList m).group tag = (ofList l).group tag) ∧
      (ofList m).unqualified = (ofList l).unqualified ∧
      ∀ root source fallback,
        Plan.make (ofList m) (.ofCaptures (ofList m) root source) fallback =
          Plan.make (ofList l) (.ofCaptures (ofList l) root source) fallback := by
  refine ⟨fun tag => ⟨fun c => ?_, pairwise_group (ofList l) tag,
    fun span => exists_mem_group_ofList_iff, count_ofList l tag⟩,
    fun c => ⟨add_ofList l c, add_fst_iff, fun tag other => group_add_of_ne (ofList l) other⟩, ?_⟩
  · rw [mem_group, mem_ofList, and_comm]
  · intro m perm alike
    rw [ofList_eq_of_perm perm alike]
    exact ⟨fun _ => rfl, rfl, fun _ _ _ => rfl⟩

theorem filed_exactly_calledAndStreamed :
    let called : Capture := ⟨⟨3, 6⟩, "identifier", "min", .func⟩
    let streamed : Capture := ⟨⟨3, 6⟩, "identifier", "min", .symbol⟩
    let earlier : Capture := ⟨⟨0, 1⟩, "identifier", "f", .func⟩
    let l := [called, earlier, streamed, called]
    let m := [streamed, called, called, earlier]
    l.Perm m ∧ (∀ c ∈ l, ∀ d ∈ l, c.tag = d.tag → c.span = d.span → c = d) ∧
      (ofList m).group .func = [earlier, called] ∧
      (ofList m).unqualified.toList = [earlier, streamed] := by
  intro called streamed earlier l m
  have perm : l.Perm m := by decide
  have alike : ∀ c ∈ l, ∀ d ∈ l, c.tag = d.tag → c.span = d.span → c = d := by decide
  obtain ⟨groups, bareNames, _⟩ := (filed_exactly l).2.2 m perm alike
  refine ⟨perm, alike, ?_, ?_⟩
  · rw [groups]
    decide
  · rw [bareNames]
    decide

end CaptureSet

end UsingRemoval
