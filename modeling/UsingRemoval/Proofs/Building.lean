import UsingRemoval.Grammar
import UsingRemoval.Proofs.Places

/-!
What the making of a grammar leaves alone. Work that looks for a grammar may make directories and
may write the library, and changes no other file whether it fails or not.
-/

set_option autoImplicit false

namespace UsingRemoval

open Workspace (ChangesOnly)

namespace Work

variable {α β : Type} {paths : List String}

/-- Whatever the work comes to, files change only where one of the paths leads. -/
def Touches (paths : List String) (job : Work α) : Prop :=
  ∀ shop : Workshop, ChangesOnly paths shop.workspace (job.run.run shop).2.workspace

theorem touches_pure (a : α) : Touches paths (pure a : Work α) :=
  fun shop => .refl paths shop.workspace

theorem touches_get {next : Workshop → Work α}
    (h : ∀ shop, ChangesOnly paths shop.workspace ((next shop).run.run shop).2.workspace) :
    Touches paths (get >>= next) :=
  h

theorem Touches.bind {job : Work α} {next : α → Work β} (h : Touches paths job)
    (h' : ∀ a, Touches paths (next a)) : Touches paths (job >>= next) := by
  intro shop
  have hjob := h shop
  rw [run_bind]
  split
  · rename_i a middle hrun
    rw [hrun] at hjob
    exact hjob.trans (h' a middle)
  · rename_i e middle hrun
    rwa [hrun] at hjob

end Work

namespace Grammar

open Work

theorem deliver_changes (w : Workspace) (library : String) (contents : Contents) :
    ChangesOnly [library] w (deliver w library contents) := by
  unfold deliver
  split
  · rename_i written
    exact (Workspace.written_files written).1
  · exact .refl _ w

theorem touches_compile (directory library : String) :
    Touches [library] (compile directory library) := by
  apply touches_get
  intro shop
  dsimp only
  split
  · exact .refl _ shop.workspace
  · exact .refl _ shop.workspace
  · exact .refl _ shop.workspace
  · exact deliver_changes shop.workspace library _

theorem touches_prepare (library : String) : Touches [library] (prepare library) := by
  unfold prepare
  split
  · exact touches_pure ()
  · exact touches_pure ()
  · rename_i up _ _
    apply touches_get
    intro shop
    have made : ChangesOnly [library] shop.workspace (shop.workspace.createAll up).2 :=
      (Workspace.ensureDirectories_changes (up.length + 1) up shop.workspace).mono nofun
    revert made
    rcases shop.workspace.createAll up with ⟨e | ⟨⟩, workspace⟩
    · exact fun made => made
    · exact fun made => made

theorem touches_build (source library : String) (force : Bool) :
    Touches [library] (build source library force) := by
  apply touches_get
  intro shop
  dsimp only
  split
  · exact .refl _ shop.workspace
  · split
    · exact .refl _ shop.workspace
    · have finish : Touches [library] (do
          prepare library
          compile (sourceDirectory shop.workspace source) library
          if (← get).workspace.has library then return BuildStatus.built
          throw (.compilation ("compiler succeeded but " ++ library ++ " was not produced"))) := by
        apply (touches_prepare library).bind
        intro _
        apply (touches_compile _ library).bind
        intro _
        apply touches_get
        intro after
        split <;> exact .refl _ after.workspace
      exact finish shop

end Grammar

/-- The paths at which looking for a grammar may write: the library, if there is a source for it. -/
def GrammarOptions.written (options : GrammarOptions) : List String :=
  if options.source.isSome then [options.library] else []

end UsingRemoval
