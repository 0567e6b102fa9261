import UsingRemoval.Proofs.Freshness

/-!
Which sources a library comes from. The last call of the compiler tells, but an unforced build asks
for times only. So a library that was compiled from one directory also serves another, unless a
source there is newer than the library.
-/

set_option autoImplicit false

namespace UsingRemoval

open Workspace (ChangesOnly)

def Workshop.atTime (shop : Workshop) (time : Int) : Workshop :=
  { shop with workspace := { shop.workspace with now := time } }

/-- Calls that succeed write the library. -/
def Compiler.Writes (compiler : Compiler) : Prop :=
  ∀ files call, compiler.run files call ≠ .nothing

theorem Workspace.ChangesOnly.atTime {paths : List String} {before after : Workspace}
    (changes : ChangesOnly paths before after) (time : Int) :
    ChangesOnly paths { before with now := time } { after with now := time } where
  cwd := changes.cwd
  now := rfl
  refuses := changes.refuses
  directories := changes.directories
  files := changes.files
  modes := changes.modes

namespace Grammar

/-- The sources of two directories are the same files. -/
def SameSources (w : Workspace) (directory other : String) : Prop :=
  ∀ name ∈ sourceNames,
    w.files.place w.cwd (Path.join directory name) = w.files.place w.cwd (Path.join other name)

instance (w : Workspace) (directory other : String) : Decidable (SameSources w directory other) :=
  inferInstanceAs (Decidable (∀ name ∈ sourceNames, _))

/-- The last call of the compiler was for the directory, and the library is what came of it at that
time. Nothing else has changed since. -/
inductive LastCompiled (shop : Workshop) (directory library : String) (time : Int) : Prop where
  | intro (before : Workspace) (earlier : List CompilerCall) (file : File)
      (unchanged : ChangesOnly [library] { before with now := shop.workspace.now } shop.workspace)
      (called : shop.calls =
        compilerCall before shop.compiler.slashOptions directory library :: earlier)
      (produced : shop.compiler.run before.files
        (compilerCall before shop.compiler.slashOptions directory library) =
          .produced file.contents)
      (there : shop.workspace.entry library = .ok (.file file)) (written : file.modified = time)

/-- The library was compiled from the sources in the directory, whatever path the directory went by
then. -/
def CompiledFrom (shop : Workshop) (directory library : String) : Prop :=
  ∃ named time, SameSources shop.workspace named directory ∧ LastCompiled shop named library time

/-- The directory has a source that changed after the given time. -/
def HasNewer (w : Workspace) (directory : String) (time : Int) : Prop :=
  ∃ name ∈ sourceNames, ∃ changed,
    w.modified? (Path.join directory name) = some changed ∧ time < changed

/-! ### What the last call tells -/

theorem directory_eq_of_compilerCall {w w' : Workspace} {slash : Bool}
    {directory directory' library : String}
    (h : compilerCall w slash directory library = compilerCall w' slash directory' library) :
    directory = directory' := by
  have arguments := congrArg CompilerCall.arguments h
  cases slash with
  | false => simp_all [compilerCall]
  | true => simp_all [compilerCall]

section

variable {shop after : Workshop} {directory other library : String} {time : Int}

theorem LastCompiled.directory_eq {time' : Int} (h : LastCompiled shop directory library time)
    (h' : LastCompiled shop other library time') : directory = other := by
  obtain ⟨_, _, _, _, called, _⟩ := h
  obtain ⟨_, _, _, _, called', _⟩ := h'
  rw [called] at called'
  exact directory_eq_of_compilerCall (List.cons.inj called').1

theorem LastCompiled.compiledFrom_iff (h : LastCompiled shop directory library time) :
    CompiledFrom shop other library ↔ SameSources shop.workspace directory other := by
  constructor
  · rintro ⟨named, time', same, compiled⟩
    rwa [h.directory_eq compiled]
  · intro same
    exact ⟨directory, time, same, h⟩

theorem LastCompiled.atTime (h : LastCompiled shop directory library time) (later : Int) :
    LastCompiled (shop.atTime later) directory library time := by
  obtain ⟨before, earlier, file, unchanged, called, produced, there, written⟩ := h
  exact ⟨before, earlier, file, unchanged.atTime later, called, produced, there, written⟩

theorem LastCompiled.upToDate_iff (h : LastCompiled shop directory library time)
    (has : shop.workspace.has library = true) :
    UpToDate shop.workspace other library ↔ ¬ HasNewer shop.workspace other time := by
  obtain ⟨_, _, file, _, _, _, there, rfl⟩ := h
  obtain ⟨entry, seen⟩ := Workspace.has_iff.1 has
  cases (Workspace.call_eq_ok_iff.1 seen).2.symm.trans there
  have modified : shop.workspace.modified? library = some file.modified := by
    rw [Workspace.modified?, seen]
    rfl
  constructor
  · rintro ⟨_, fresh⟩ ⟨name, hname, changed, hchanged, newer⟩
    have older := fresh name hname _ changed modified hchanged
    omega
  · intro noneNewer
    refine ⟨has, ?_⟩
    intro name hname built changed hbuilt hchanged
    obtain rfl : file.modified = built := Option.some.inj (modified.symm.trans hbuilt)
    by_contra newer
    exact noneNewer ⟨name, hname, changed, hchanged, by omega⟩

/-! ### Compiling anew -/

theorem parentMade_changes (w : Workspace) (library : String) :
    ChangesOnly [] w (parentMade w library).2 := by
  unfold parentMade
  split
  · exact .refl [] w
  · split
    · exact .refl [] w
    · exact Workspace.ensureDirectories_changes _ _ w

theorem exists_produced_of_rebuild {status : BuildStatus} (writes : shop.compiler.Writes)
    (ran : (rebuild directory library).run.run shop = (.ok status, after)) :
    ∃ w contents made, ChangesOnly [] shop.workspace w ∧
      shop.compiler.run w.files (compilerCall w shop.compiler.slashOptions directory library) =
        .produced contents ∧
      Produced library contents w made ∧ made.has library = true ∧
      after = { shop with
        calls := compilerCall w shop.compiler.slashOptions directory library :: shop.calls
        workspace := made } := by
  have attempt := attempt_rebuild directory library shop
  rw [ran] at attempt
  cases attempt with
  | @ran w made call _ called outcome ended =>
    obtain ⟨parent, rfl, _⟩ := called
    have changes := parentMade_changes shop.workspace library
    rw [parent] at changes
    have has : made.has library = true := by
      by_contra missing
      rw [if_neg missing] at ended
      cases ended
    rcases outcome with ⟨silent, _⟩ | ⟨contents, produced, makes⟩
    · exact absurd silent (writes _ _)
    · exact ⟨w, contents, made, changes, produced, makes, has, rfl⟩

theorem lastCompiled_of_rebuild {status : BuildStatus} (writes : shop.compiler.Writes)
    (ran : (rebuild directory library).run.run shop = (.ok status, after))
    (left : ∃ f, after.workspace.entry library = .ok (.file f)) :
    LastCompiled after directory library shop.workspace.now := by
  obtain ⟨w, contents, made, changes, produced, makes, _, rfl⟩ :=
    exists_produced_of_rebuild writes ran
  obtain ⟨file, there⟩ := left
  obtain ⟨rfl, written⟩ := makes.file file there
  refine .intro w shop.calls file ?_ rfl produced there (written.trans changes.now)
  rw [show made.now = w.now from makes.changes.now]
  exact makes.changes

/-! ### Builds and loading -/

theorem run_fromLibrary (path : String) (shop : Workshop) :
    (fromLibrary path).run.run shop = (ofLibrary shop.workspace path, shop) := by
  rw [fromLibrary, run_get_bind]
  cases ofLibrary shop.workspace path <;> rfl

theorem run_load_of_build {source : String} {status : BuildStatus}
    (built : (build source library false).run.run shop = (.ok status, after)) :
    (load ⟨some source, library⟩).run.run shop = (ofLibrary after.workspace library, after) := by
  have steps : load ⟨some source, library⟩ = build source library false >>= fun _ =>
    fromLibrary library := rfl
  rw [steps, run_bind, built]
  exact run_fromLibrary library after

theorem run_rebuild_of_forced {source : String} {status : BuildStatus}
    (built : (build source library true).run.run shop = (.ok status, after)) :
    (rebuild (sourceDirectory shop.workspace source) library).run.run shop = (.ok status, after) := by
  cases there : shop.workspace.has
      (Path.join (sourceDirectory shop.workspace source) "parser.c") with
  | false =>
    rw [run_build_of_missing there] at built
    cases built
  | true =>
    rw [run_build_of_work there (.inl rfl)] at built
    exact built

end

/-- After a forced build from a first directory, an unforced build for a second one leaves a library
that was compiled from the second exactly if the two have the same sources, or if the second has a
source that changed after the forced build. Otherwise the library stays the one compiled from the
first. Either way it is what is loaded next. -/
theorem cached_library_belongs_iff {first second library : String} {shop between after : Workshop}
    {status answer : BuildStatus} (later : Int) (writes : shop.compiler.Writes)
    (built : (build first library true).run.run shop = (.ok status, between))
    (left : ∃ f, between.workspace.entry library = .ok (.file f))
    (asked : (build second library false).run.run (between.atTime later) = (.ok answer, after)) :
    let w := (between.atTime later).workspace
    let theirs := sourceDirectory shop.workspace first
    let ours := sourceDirectory w second
    (CompiledFrom after ours library ↔
      SameSources w theirs ours ∨ HasNewer w ours shop.workspace.now) ∧
    (¬ CompiledFrom after ours library →
      answer = .alreadyBuilt ∧ after = between.atTime later ∧ CompiledFrom after theirs library) ∧
    (load ⟨some second, library⟩).run.run (between.atTime later) =
      (ofLibrary after.workspace library, after) := by
  intro w theirs ours
  have loaded := run_load_of_build asked
  have rebuilt := run_rebuild_of_forced built
  have compiled : LastCompiled (between.atTime later) theirs library shop.workspace.now :=
    (lastCompiled_of_rebuild writes rebuilt left).atTime later
  have there : w.has (Path.join ours "parser.c") = true := by
    rw [← Bool.not_eq_false]
    intro missing
    rw [run_build_of_missing missing] at asked
    cases asked
  have sameCompiler : (between.atTime later).compiler = shop.compiler := by
    obtain ⟨_, _, _, _, _, _, _, rfl⟩ := exists_produced_of_rebuild writes rebuilt
    rfl
  have has : w.has library = true := by
    obtain ⟨_, _, _, _, _, _, has, rfl⟩ := exists_produced_of_rebuild writes rebuilt
    exact has
  have fresh : UpToDate w ours library ↔ ¬ HasNewer w ours shop.workspace.now :=
    compiled.upToDate_iff has
  by_cases newer : HasNewer w ours shop.workspace.now
  · have outdated : ¬ UpToDate w ours library := fun upToDate => fresh.1 upToDate newer
    have stays : ∃ f, after.workspace.entry library = .ok (.file f) := by
      have changes := touches_build second library false (between.atTime later)
      rw [asked] at changes
      obtain ⟨f, hf⟩ := left
      obtain ⟨g, hg, _⟩ := changes.entry_file hf
      exact ⟨g, hg⟩
    rw [run_build_of_work there (.inr outdated)] at asked
    have belongs : CompiledFrom after ours library :=
      ⟨ours, _, fun _ _ => rfl, lastCompiled_of_rebuild (sameCompiler ▸ writes) asked stays⟩
    exact ⟨iff_of_true belongs (.inr newer), fun foreign => absurd belongs foreign, loaded⟩
  · rw [run_build_of_upToDate there (fresh.2 newer)] at asked
    cases asked
    refine ⟨?_, fun _ => ⟨rfl, rfl, theirs, _, fun _ _ => rfl, compiled⟩, loaded⟩
    rw [compiled.compiledFrom_iff, or_iff_left newer]

/-- Two checkouts of a grammar, the second changed at the given time, and a compiler that makes
different libraries of them. -/
def twoCheckouts (changed : Int) : Workshop where
  workspace := {
    files := { entries := [
      (["a"], .directory 1), (["a", "parser.c"], .file ⟨.bytes [], 0o644, 1⟩),
      (["b"], .directory 1), (["b", "parser.c"], .file ⟨.bytes [], 0o644, changed⟩)] }
    cwd := []
    now := 9 }
  compiler := {
    run := fun _ call =>
      .produced (.library (.grammar (if call.arguments.contains "a/parser.c" then 13 else 14))) }

private theorem eq_mk_snd {α β : Type} {p : α × β} {a : α} (h : p.1 = a) : p = (a, p.2) := by
  rw [← h]

theorem writes_twoCheckouts (changed : Int) : (twoCheckouts changed).compiler.Writes :=
  fun _ _ => nofun

theorem cached_library_belongs_newerSource :
    ∃ between after,
      (build "a" "out/cpp.so" true).run.run (twoCheckouts 12) = (.ok .built, between) ∧
      (build "b" "out/cpp.so" false).run.run (between.atTime 20) = (.ok .built, after) ∧
      CompiledFrom after "b" "out/cpp.so" := by
  let between := ((build "a" "out/cpp.so" true).run.run (twoCheckouts 12)).2
  let after := ((build "b" "out/cpp.so" false).run.run (between.atTime 20)).2
  have built : (build "a" "out/cpp.so" true).run.run (twoCheckouts 12) = (.ok .built, between) :=
    eq_mk_snd (by decide +kernel)
  have left : between.workspace.entry "out/cpp.so" =
      .ok (.file ⟨.library (.grammar 13), 0o644, 9⟩) := by
    decide +kernel
  have asked : (build "b" "out/cpp.so" false).run.run (between.atTime 20) = (.ok .built, after) :=
    eq_mk_snd (by decide +kernel)
  have ours : sourceDirectory (between.atTime 20).workspace "b" = "b" := by decide +kernel
  have newer : HasNewer (between.atTime 20).workspace "b" 9 :=
    ⟨"parser.c", by decide, 12, by decide +kernel, by decide⟩
  have belongs := (cached_library_belongs_iff 20 (writes_twoCheckouts 12) built ⟨_, left⟩ asked).1
  rw [ours] at belongs
  exact ⟨between, after, built, asked, belongs.2 (.inr newer)⟩

/-- A checkout that has not changed since gets the library of the other one. -/
theorem other_checkout_served :
    (twoCheckouts 5).compiler.Writes ∧
    ∃ between,
      (build "a" "out/cpp.so" true).run.run (twoCheckouts 5) = (.ok .built, between) ∧
      (build "b" "out/cpp.so" false).run.run (between.atTime 20) =
        (.ok .alreadyBuilt, between.atTime 20) ∧
      ((load ⟨some "b", "out/cpp.so"⟩).run.run (between.atTime 20)).1 =
        .ok ⟨.compiled "out/cpp.so", 13⟩ ∧
      ¬ CompiledFrom (between.atTime 20) "b" "out/cpp.so" := by
  let between := ((build "a" "out/cpp.so" true).run.run (twoCheckouts 5)).2
  have built : (build "a" "out/cpp.so" true).run.run (twoCheckouts 5) = (.ok .built, between) :=
    eq_mk_snd (by decide +kernel)
  have left : between.workspace.entry "out/cpp.so" =
      .ok (.file ⟨.library (.grammar 13), 0o644, 9⟩) := by
    decide +kernel
  have there : (between.atTime 20).workspace.has
      (Path.join (sourceDirectory (between.atTime 20).workspace "b") "parser.c") = true := by
    decide +kernel
  have fresh : isStale (between.atTime 20).workspace
      (sourceDirectory (between.atTime 20).workspace "b") "out/cpp.so" = false := by
    decide +kernel
  have compiled : LastCompiled (between.atTime 20) "a" "out/cpp.so" 9 := by
    have rebuilt := run_rebuild_of_forced built
    rw [show sourceDirectory (twoCheckouts 5).workspace "a" = "a" by decide +kernel] at rebuilt
    exact (lastCompiled_of_rebuild (writes_twoCheckouts 5) rebuilt ⟨_, left⟩).atTime 20
  refine ⟨writes_twoCheckouts 5, between, built,
    run_build_of_upToDate there (isStale_eq_false_iff.1 fresh), by decide +kernel, ?_⟩
  rw [compiled.compiledFrom_iff]
  decide +kernel

end Grammar

end UsingRemoval
