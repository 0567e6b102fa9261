import Mathlib.Logic.Relation
import UsingRemoval.Path

/-!
Paths and the directories above them. A parent is a shorter text, so a search that goes from parent
to parent ends, and the search for the directory of a work tree is never cut short.
-/

set_option autoImplicit false

namespace UsingRemoval

namespace Path

theorem intercalate_pieces (path : String) : "/".intercalate (pieces path) = path := by
  apply String.toList_inj.1
  rw [String.toList_intercalate, pieces, List.map_map]
  have h : String.toList ∘ String.ofList = id := by
    funext l
    simp
  rw [h, List.map_id]
  exact List.intercalate_splitOn '/'

theorem map_fst_marked (index : Nat) (ps : List String) : (marked index ps).map Prod.fst = ps := by
  induction ps generalizing index with
  | nil => rfl
  | cons p ps ih => rw [marked, List.map_cons, ih]

theorem pieces_of_named {path : String} {last : String × Bool} {before : List (String × Bool)}
    (h : named path = last :: before) :
    ∃ after, pieces path = before.reverse.map Prod.fst ++ last.1 :: after := by
  obtain ⟨after, hafter⟩ : (last :: before) <:+ (marked 0 (pieces path)).reverse :=
    h ▸ List.dropWhile_suffix _
  refine ⟨after.reverse.map Prod.fst, ?_⟩
  rw [← map_fst_marked 0 (pieces path), ← List.reverse_reverse (marked 0 (pieces path)), ← hafter]
  simp

theorem length_root_lt {path : String} (h : named path ≠ []) :
    (if isAbsolute path then "/" else "").length < path.length := by
  have hempty : path ≠ "" := by
    rintro rfl
    exact h (by decide)
  have hroot : path ≠ "/" := by
    rintro rfl
    exact h (by decide)
  rw [← String.length_toList (s := path)]
  cases hchars : path.toList with
  | nil => exact absurd (String.toList_inj.1 hchars) hempty
  | cons c rest =>
    split
    · rename_i habsolute
      have hc : c = '/' := by simpa [isAbsolute, hchars] using habsolute
      cases rest with
      | nil =>
        rw [hc] at hchars
        exact absurd (String.toList_inj.1 hchars) hroot
      | cons d rest =>
        have hslash : "/".length = 1 := rfl
        simp only [hslash, List.length_cons]
        omega
    · simp

theorem length_parent?_lt {path up : String} (h : parent? path = some up) :
    up.length < path.length := by
  cases hnamed : named path with
  | nil => simp [parent?, hnamed] at h
  | cons last before =>
    cases hrest : before.dropWhile fun piece => !piece.2 with
    | nil =>
      have hup : up = if isAbsolute path then "/" else "" := by
        simpa [parent?, hnamed, hrest] using h.symm
      rw [hup]
      exact length_root_lt (by simp [hnamed])
    | cons first rest =>
      have hup : up = "/".intercalate ((first :: rest).reverse.map Prod.fst) := by
        simpa [parent?, hnamed, hrest] using h.symm
      obtain ⟨dropped, hdropped⟩ : (first :: rest) <:+ before := hrest ▸ List.dropWhile_suffix _
      obtain ⟨after, hpieces⟩ := pieces_of_named hnamed
      have hpath := intercalate_pieces path
      rw [hpieces, ← hdropped, List.reverse_append, List.map_append, List.append_assoc,
        String.intercalate_append_of_ne_nil (by simp) (by simp), ← hup] at hpath
      rw [← hpath, String.length_append, String.length_append]
      have hslash : "/".length = 1 := rfl
      omega

/-- The directory `found` is the nearest, from a directory up, that has a property. -/
inductive Nearest (P : String → Prop) : String → String → Prop
  | here {directory : String} : P directory → Nearest P directory directory
  | up {directory parent found : String} : ¬ P directory → parent? directory = some parent →
      Nearest P parent found → Nearest P directory found

def AtOrAbove : String → String → Prop :=
  Relation.ReflTransGen fun path up => parent? path = some up

/-- The search through a path and the paths above it meets all of them. -/
theorem find?_ancestors (P : String → Bool) {fuel : Nat} {path : String}
    (enough : path.length < fuel) :
    match (ancestors fuel path).find? P with
    | some found => Nearest (P · = true) path found
    | none => ∀ up, AtOrAbove path up → P up = false := by
  induction fuel generalizing path with
  | zero => omega
  | succ fuel ih =>
    rw [ancestors, List.find?_cons]
    cases hp : P path with
    | true => exact .here hp
    | false =>
      cases hparent : parent? path with
      | none =>
        intro up habove
        rcases habove.cases_head with rfl | ⟨next, hnext, _⟩
        · exact hp
        · rw [hparent] at hnext
          cases hnext
      | some parent =>
        have hlt := length_parent?_lt hparent
        have later := ih (show parent.length < fuel by omega)
        dsimp only
        cases hfind : (ancestors fuel parent).find? P with
        | some found =>
          rw [hfind] at later
          exact .up (by simp [hp]) hparent later
        | none =>
          rw [hfind] at later
          intro up habove
          rcases habove.cases_head with rfl | ⟨next, hnext, hrest⟩
          · exact hp
          · obtain rfl : parent = next := Option.some.inj (hparent.symm.trans hnext)
            exact later up hrest

end Path
end UsingRemoval
