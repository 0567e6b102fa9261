/-!
Lists kept in strictly increasing order of a key. They serve as sorted sets and as finite maps:
each key occurs at most once, and the list of items is the whole observable content.
-/

set_option autoImplicit false

namespace UsingRemoval

universe u v

/-- Items in strictly increasing order of `key`. -/
structure Ordered {α : Type u} {κ : Type v} [Ord κ] (key : α → κ) where
  toList : List α
  sorted : toList.Pairwise fun a b => compare (key a) (key b) = .lt

namespace Ordered

variable {α : Type u} {κ : Type v} [Ord κ]

theorem ext {key : α → κ} {s t : Ordered key} (h : s.toList = t.toList) : s = t := by
  cases s; cases t; cases h; rfl

instance [DecidableEq α] {key : α → κ} : DecidableEq (Ordered key) := fun s t =>
  decidable_of_iff (s.toList = t.toList) ⟨ext, fun h => by rw [h]⟩

/-- Puts `x` in its place; `keep` says whether an item that already has its key stays. -/
def place (key : α → κ) (keep : Bool) (x : α) : List α → List α
  | [] => [x]
  | y :: ys =>
    match compare (key x) (key y) with
    | .lt => x :: y :: ys
    | .eq => (if keep then y else x) :: ys
    | .gt => y :: place key keep x ys

theorem mem_place {key : α → κ} {keep : Bool} {x a : α} {l : List α}
    (h : a ∈ place key keep x l) : a = x ∨ a ∈ l := by
  induction l with
  | nil => exact .inl (by simpa [place] using h)
  | cons y ys ih =>
    rw [place] at h
    split at h
    · simpa using h
    · cases keep <;> simp at h <;> grind
    · rcases List.mem_cons.1 h with h | h
      · exact .inr (by simp [h])
      · exact (ih h).imp_right (List.mem_cons_of_mem y)

variable [Std.TransOrd κ] [Std.LawfulEqOrd κ]

theorem sorted_place {key : α → κ} (keep : Bool) (x : α) {l : List α}
    (h : l.Pairwise fun a b => compare (key a) (key b) = .lt) :
    (place key keep x l).Pairwise fun a b => compare (key a) (key b) = .lt := by
  induction l with
  | nil => simp [place]
  | cons y ys ih =>
    have hy := (List.pairwise_cons.1 h).1
    have hys := (List.pairwise_cons.1 h).2
    rw [place]
    split
    · rename_i hlt
      refine List.pairwise_cons.2 ⟨fun a ha => ?_, h⟩
      rcases List.mem_cons.1 ha with rfl | ha
      · exact hlt
      · exact Std.TransCmp.lt_trans hlt (hy a ha)
    · rename_i heq
      have hk : key x = key y := Std.LawfulEqOrd.eq_of_compare heq
      refine List.pairwise_cons.2 ⟨fun a ha => ?_, hys⟩
      cases keep
      · simpa [hk] using hy a ha
      · exact hy a ha
    · rename_i hgt
      refine List.pairwise_cons.2 ⟨fun a ha => ?_, ih hys⟩
      rcases mem_place ha with rfl | ha
      · exact Std.OrientedCmp.lt_of_gt hgt
      · exact hy a ha

variable {key : α → κ}

def empty : Ordered key := ⟨[], .nil⟩

/-- Adds `x` unless its key is taken. -/
def insertNew (s : Ordered key) (x : α) : Ordered key :=
  ⟨place key true x s.toList, sorted_place true x s.sorted⟩

/-- Adds `x`, replacing the item that has its key. -/
def insert (s : Ordered key) (x : α) : Ordered key :=
  ⟨place key false x s.toList, sorted_place false x s.sorted⟩

/-- Adds the items of a list from left to right, each replacing what has its key. -/
def insertMany (s : Ordered key) (l : List α) : Ordered key :=
  l.foldl insert s

/-- The items of a list; the last of those with one key stays. -/
def ofList (l : List α) : Ordered key :=
  insertMany empty l

def find? (s : Ordered key) (k : κ) : Option α :=
  s.toList.find? fun a => compare k (key a) == .eq

def contains (s : Ordered key) (k : κ) : Bool :=
  (s.find? k).isSome

def size (s : Ordered key) : Nat :=
  s.toList.length

end Ordered

end UsingRemoval
