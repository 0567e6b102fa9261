import Mathlib.Data.List.Pairwise
import UsingRemoval.Ordered

/-!
Which items an ordered list holds after items were put into it one after another: the first of
each key where taken keys stay, and the last of each key where items are replaced.
-/

set_option autoImplicit false

namespace UsingRemoval.Ordered

universe u v

variable {α : Type u} {κ : Type v} {key : α → κ}

/-- The item is the first of a list that has its key. -/
def FirstIn (key : α → κ) (l : List α) (a : α) : Prop :=
  ∃ before after, l = before ++ a :: after ∧ ∀ b ∈ before, key b ≠ key a

/-- The item is the last of a list that has its key. -/
def LastIn (key : α → κ) (l : List α) (a : α) : Prop :=
  ∃ before after, l = before ++ a :: after ∧ ∀ b ∈ after, key b ≠ key a

private theorem firstIn_cons {x a : α} {l : List α} :
    FirstIn key (x :: l) a ↔ a = x ∨ key x ≠ key a ∧ FirstIn key l a := by
  constructor
  · rintro ⟨before, after, heq, h⟩
    cases before with
    | nil => exact .inl (List.cons.inj heq).1.symm
    | cons y before =>
      obtain ⟨rfl, rfl⟩ := List.cons.inj heq
      exact .inr ⟨h x List.mem_cons_self, before, after, rfl,
        fun b hb => h b (List.mem_cons_of_mem x hb)⟩
  · rintro (rfl | ⟨hx, before, after, rfl, h⟩)
    · exact ⟨[], l, rfl, by simp⟩
    · exact ⟨x :: before, after, rfl, List.forall_mem_cons.2 ⟨hx, h⟩⟩

private theorem lastIn_cons {x a : α} {l : List α} :
    LastIn key (x :: l) a ↔ LastIn key l a ∨ a = x ∧ ∀ b ∈ l, key b ≠ key a := by
  constructor
  · rintro ⟨before, after, heq, h⟩
    cases before with
    | nil =>
      obtain ⟨rfl, rfl⟩ := List.cons.inj heq
      exact .inr ⟨rfl, h⟩
    | cons y before =>
      obtain ⟨rfl, rfl⟩ := List.cons.inj heq
      exact .inl ⟨before, after, rfl, h⟩
  · rintro (⟨before, after, rfl, h⟩ | ⟨rfl, h⟩)
    · exact ⟨x :: before, after, rfl, h⟩
    · exact ⟨[], l, rfl, h⟩

theorem FirstIn.mem {l : List α} {a : α} (h : FirstIn key l a) : a ∈ l := by
  obtain ⟨before, after, rfl, _⟩ := h
  simp

theorem LastIn.mem {l : List α} {a : α} (h : LastIn key l a) : a ∈ l := by
  obtain ⟨before, after, rfl, _⟩ := h
  simp

theorem exists_firstIn (key : α → κ) {l : List α} {x : α} (h : x ∈ l) :
    ∃ a, FirstIn key l a ∧ key a = key x := by
  induction l with
  | nil => contradiction
  | cons y l ih =>
    by_cases hy : key y = key x
    · exact ⟨y, firstIn_cons.2 (.inl rfl), hy⟩
    · have hx : x ∈ l := (List.mem_cons.1 h).resolve_left fun heq => hy (heq ▸ rfl)
      obtain ⟨a, ha, hk⟩ := ih hx
      exact ⟨a, firstIn_cons.2 (.inr ⟨hk ▸ hy, ha⟩), hk⟩

theorem firstIn_append {l₁ l₂ : List α} {a : α} :
    FirstIn key (l₁ ++ l₂) a ↔
      FirstIn key l₁ a ∨ (∀ b ∈ l₁, key b ≠ key a) ∧ FirstIn key l₂ a := by
  induction l₁ with
  | nil => simp [FirstIn]
  | cons x l₁ ih =>
    rw [List.cons_append, firstIn_cons, firstIn_cons, ih, List.forall_mem_cons, and_or_left, or_assoc,
      and_assoc]

theorem firstIn_iff_mem {l : List α} (inj : ∀ a ∈ l, ∀ b ∈ l, key a = key b → a = b) {a : α} :
    FirstIn key l a ↔ a ∈ l := by
  refine ⟨FirstIn.mem, fun ha => ?_⟩
  obtain ⟨b, hb, hk⟩ := exists_firstIn key ha
  rwa [inj b hb.mem a ha hk] at hb

theorem exists_lastIn (key : α → κ) {l : List α} {x : α} (h : x ∈ l) :
    ∃ a, LastIn key l a ∧ key a = key x := by
  induction l generalizing x with
  | nil => contradiction
  | cons y l ih =>
    by_cases hl : ∃ b ∈ l, key b = key x
    · obtain ⟨b, hb, hk⟩ := hl
      obtain ⟨a, ha, hka⟩ := ih hb
      exact ⟨a, lastIn_cons.2 (.inl ha), hka.trans hk⟩
    · have hy : x = y := (List.mem_cons.1 h).resolve_right fun hx => hl ⟨x, hx, rfl⟩
      exact ⟨x, lastIn_cons.2 (.inr ⟨hy, fun b hb hk => hl ⟨b, hb, hk⟩⟩), rfl⟩

theorem lastIn_append {l₁ l₂ : List α} {a : α} :
    LastIn key (l₁ ++ l₂) a ↔
      LastIn key l₂ a ∨ LastIn key l₁ a ∧ ∀ b ∈ l₂, key b ≠ key a := by
  induction l₁ with
  | nil => simp [LastIn]
  | cons x l₁ ih =>
    rw [List.cons_append, lastIn_cons, lastIn_cons, ih, List.forall_mem_append, or_assoc,
      or_and_right, and_assoc]

theorem lastIn_iff_mem {l : List α} (inj : ∀ a ∈ l, ∀ b ∈ l, key a = key b → a = b) {a : α} :
    LastIn key l a ↔ a ∈ l := by
  refine ⟨LastIn.mem, fun ha => ?_⟩
  obtain ⟨b, hb, hk⟩ := exists_lastIn key ha
  rwa [inj b hb.mem a ha hk] at hb

variable [Ord κ] [Std.LawfulEqOrd κ]

private theorem ne_of_compare_eq_lt {k l : κ} (h : compare k l = .lt) : k ≠ l := by
  rintro rfl
  simp at h

theorem eq_of_key_eq (s : Ordered key) {a b : α} (ha : a ∈ s.toList) (hb : b ∈ s.toList)
    (h : key a = key b) : a = b := by
  have distinct : s.toList.Pairwise fun a b => key a ≠ key b :=
    s.sorted.imp ne_of_compare_eq_lt
  have : Std.Symm fun a b : α => key a ≠ key b := ⟨fun _ _ h => h.symm⟩
  by_contra hne
  exact distinct.forall ha hb hne h

theorem find?_eq_some_iff {s : Ordered key} {k : κ} {a : α} :
    s.find? k = some a ↔ a ∈ s.toList ∧ key a = k := by
  have hfound {b : α} (h : s.find? k = some b) : b ∈ s.toList ∧ key b = k := by
    have hk : compare k (key b) = .eq := by simpa using List.find?_some h
    exact ⟨List.mem_of_find?_eq_some h, (Std.LawfulEqOrd.eq_of_compare hk).symm⟩
  refine ⟨hfound, ?_⟩
  rintro ⟨ha, rfl⟩
  cases hfind : s.find? (key a) with
  | none => simpa using List.find?_eq_none.1 hfind a ha
  | some b =>
    obtain ⟨hb, hk⟩ := hfound hfind
    rw [s.eq_of_key_eq hb ha hk]

variable [Std.TransOrd κ]

private theorem mem_place_iff {keep : Bool} {x a : α} {l : List α}
    (sorted : l.Pairwise fun a b => compare (key a) (key b) = .lt) :
    a ∈ place key keep x l ↔
      if keep then a ∈ l ∨ a = x ∧ ∀ b ∈ l, key b ≠ key x else a = x ∨ a ∈ l ∧ key a ≠ key x := by
  induction l with
  | nil => cases keep <;> simp [place]
  | cons y ys ih =>
    obtain ⟨hy, hys⟩ := List.pairwise_cons.1 sorted
    specialize ih hys
    have hlater : ∀ b ∈ ys, key y ≠ key b := fun b hb => ne_of_compare_eq_lt (hy b hb)
    rw [place]
    split
    · rename_i hlt
      -- `x` goes in front, and all keys of the list are greater than its own
      have hgreater : ∀ b ∈ y :: ys, key x ≠ key b := fun b hb => by
        rcases List.mem_cons.1 hb with rfl | hb
        · exact ne_of_compare_eq_lt hlt
        · exact ne_of_compare_eq_lt (Std.TransCmp.lt_trans hlt (hy b hb))
      cases keep <;> grind
    · rename_i heq
      have hk : key x = key y := Std.LawfulEqOrd.eq_of_compare heq
      cases keep <;> grind
    · rename_i hgt
      have hne : key y ≠ key x := ne_of_compare_eq_lt (Std.OrientedCmp.lt_of_gt hgt)
      cases keep <;> grind

theorem mem_insertNew {s : Ordered key} {x a : α} :
    a ∈ (s.insertNew x).toList ↔ a ∈ s.toList ∨ a = x ∧ ∀ b ∈ s.toList, key b ≠ key x := by
  rw [insertNew, mem_place_iff s.sorted, if_pos rfl]

theorem mem_insert {s : Ordered key} {x a : α} :
    a ∈ (s.insert x).toList ↔ a = x ∨ a ∈ s.toList ∧ key a ≠ key x := by
  rw [insert, mem_place_iff s.sorted, if_neg Bool.false_ne_true]

theorem mem_foldl_insertNew {l : List α} {s : Ordered key} {a : α} :
    a ∈ (l.foldl insertNew s).toList ↔
      a ∈ s.toList ∨ (∀ b ∈ s.toList, key b ≠ key a) ∧ FirstIn key l a := by
  induction l generalizing s with
  | nil => simp [FirstIn]
  | cons x l ih =>
    rw [List.foldl_cons, ih, firstIn_cons]
    simp only [mem_insertNew]
    constructor
    · rintro ((h | ⟨rfl, h⟩) | ⟨hs, hl⟩)
      · exact .inl h
      · exact .inr ⟨h, .inl rfl⟩
      · refine .inr ⟨fun b hb => hs b (.inl hb), .inr ⟨?_, hl⟩⟩
        -- either `x` is in the list now, or an item with its key was there before
        by_cases hx : ∃ b ∈ s.toList, key b = key x
        · obtain ⟨b, hb, hk⟩ := hx
          exact hk ▸ hs b (.inl hb)
        · exact hs x (.inr ⟨rfl, fun b hb hk => hx ⟨b, hb, hk⟩⟩)
    · rintro (h | ⟨hs, rfl | ⟨hx, hl⟩⟩)
      · exact .inl (.inl h)
      · exact .inl (.inr ⟨rfl, hs⟩)
      · refine .inr ⟨?_, hl⟩
        rintro b (hb | ⟨rfl, _⟩)
        · exact hs b hb
        · exact hx

theorem mem_insertMany {l : List α} {s : Ordered key} {a : α} :
    a ∈ (s.insertMany l).toList ↔ LastIn key l a ∨ a ∈ s.toList ∧ ∀ b ∈ l, key b ≠ key a := by
  induction l generalizing s with
  | nil => simp [insertMany, LastIn]
  | cons x l ih =>
    have hstep : s.insertMany (x :: l) = (s.insert x).insertMany l := rfl
    rw [hstep, ih, lastIn_cons, mem_insert, List.forall_mem_cons]
    grind

end UsingRemoval.Ordered
