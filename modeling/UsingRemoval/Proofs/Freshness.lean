import Mathlib.Data.List.Basic
import UsingRemoval.Proofs.Building

/-!
When a grammar is compiled. A library that is no older than its sources is used as it is, and asking
for it changes nothing; without `parser.c` nothing is touched either. In all other cases the
compiler is run, unless the directory for the library cannot be made or there is no compiler. A
build takes no source away, so a library that is up to date after it stays so however often it is
asked for.
-/

set_option autoImplicit false

namespace UsingRemoval

open Workspace (ChangesOnly)

namespace FileSystem

theorem exists_entry_iff {fs : FileSystem} {cwd : List String} {path : String} :
    (∃ entry, fs.entry cwd path = .ok entry) ↔ ∃ p, fs.place cwd path = .ok p ∧
      (fs.standing p.names = some none ∨
        p.asDirectory = false ∧ ∃ f, fs.standing p.names = some (some f)) := by
  unfold entry
  cases hplace : fs.place cwd path with
  | error e => simp [bind, Except.bind]
  | ok p =>
    simp only [bind, Except.bind, Except.ok.injEq, exists_eq_left', standing]
    rcases hfound : fs.find? p.names with _ | time | f
    · simp
    · simp [Entry.file?, pure, Except.pure]
    · cases p.asDirectory <;> simp [Entry.file?, pure, Except.pure]

end FileSystem

namespace Workspace

variable {paths : List String} {w before after : Workspace} {path : String}

theorem has_iff : w.has path = true ↔ ∃ entry, w.look path = .ok entry := by
  unfold has
  cases w.look path <;> simp [Except.isOk, Except.toBool]

theorem ChangesOnly.has (changes : ChangesOnly paths before after)
    (there : before.has path = true) : after.has path = true := by
  obtain ⟨entry, seen⟩ := has_iff.1 there
  obtain ⟨allowed, stands⟩ := call_eq_ok_iff.1 seen
  obtain ⟨p, led, found⟩ := FileSystem.exists_entry_iff.1 ⟨entry, stands⟩
  have still : ∃ entry, after.entry path = .ok entry := by
    refine FileSystem.exists_entry_iff.2 ⟨p, changes.place led, ?_⟩
    rcases found with directory | ⟨asFile, f, hf⟩
    · exact .inl (changes.directories p.names directory)
    · obtain ⟨g, hg, _⟩ := changes.modes p.names f (FileSystem.file?_eq_some_iff.2 hf)
      exact .inr ⟨asFile, g, FileSystem.file?_eq_some_iff.1 hg⟩
  obtain ⟨later, hlater⟩ := still
  exact has_iff.2 ⟨later, call_eq_ok_iff.2 ⟨changes.refuses ▸ allowed, hlater⟩⟩

theorem isSome_modified? (w : Workspace) (path : String) :
    (w.modified? path).isSome = w.has path := by
  unfold modified? has
  cases w.look path <;> rfl

end Workspace

namespace Grammar

/-- The library is there and no older than any of its sources that are there. -/
def UpToDate (w : Workspace) (directory library : String) : Prop :=
  w.has library = true ∧
    ∀ name ∈ ["parser.c", "scanner.c", "scanner.cc"], ∀ built changed,
      w.modified? library = some built → w.modified? (Path.join directory name) = some changed →
        changed ≤ built

theorem isStale_eq_false_iff {w : Workspace} {directory library : String} :
    isStale w directory library = false ↔ UpToDate w directory library := by
  have hnames : sourceNames = ["parser.c", "scanner.c", "scanner.cc"] := rfl
  rw [isStale, UpToDate, ← w.isSome_modified?, ← hnames]
  cases w.modified? library with
  | none => simp
  | some built =>
    simp only [List.any_eq_false, Option.isSome_some, true_and, Option.some.injEq]
    constructor
    · rintro fresh name hname _ changed rfl hchanged
      have hold := fresh name hname
      rw [hchanged] at hold
      simpa using hold
    · intro fresh name hname
      cases hchanged : w.modified? (Path.join directory name) with
      | none => simp
      | some changed => simpa using fresh name hname built changed rfl hchanged

/-- The making of the directory that a library goes to; a bare file name needs none. -/
def parentMade (w : Workspace) (library : String) : Except OsError Unit × Workspace :=
  match Path.parent? library with
  | none => (.ok (), w)
  | some up => if up = "" then (.ok (), w) else w.createAll up

theorem run_get_bind {α : Type} (next : Workshop → Work α) (shop : Workshop) :
    (get >>= next).run.run shop = (next shop).run.run shop := rfl

theorem run_prepare (library : String) (shop : Workshop) :
    (prepare library).run.run shop =
      ((parentMade shop.workspace library).1.mapError .io,
        { shop with workspace := (parentMade shop.workspace library).2 }) := by
  unfold prepare parentMade
  split
  · rename_i hparent
    rw [hparent]
    rfl
  · rename_i hparent
    rw [hparent]
    rfl
  · rename_i up named hparent
    have hup : up ≠ "" := named
    rw [hparent, run_get_bind]
    dsimp only
    rw [if_neg hup]
    rcases shop.workspace.createAll up with ⟨e | ⟨⟩, w⟩
    · rfl
    · rfl

/-- The end of a build: the library has to be there. -/
def confirm (library : String) : Work BuildStatus := do
  if (← get).workspace.has library then return .built
  throw (.compilation ("compiler succeeded but " ++ library ++ " was not produced"))

/-- Compiling anew: the part of a build after the decision that there is something to do. -/
def rebuild (directory library : String) : Work BuildStatus := do
  prepare library
  compile directory library
  confirm library

theorem run_confirm (library : String) (shop : Workshop) :
    (confirm library).run.run shop =
      (if shop.workspace.has library then .ok .built
        else .error (.compilation ("compiler succeeded but " ++ library ++ " was not produced")),
        shop) := by
  rw [confirm, run_get_bind]
  cases shop.workspace.has library with
  | true => rfl
  | false => rfl

theorem run_build (source library : String) (force : Bool) (shop : Workshop) :
    (build source library force).run.run shop =
      if shop.workspace.has (Path.join (sourceDirectory shop.workspace source) "parser.c") then
        if !force && !isStale shop.workspace (sourceDirectory shop.workspace source) library then
          (.ok .alreadyBuilt, shop)
        else (rebuild (sourceDirectory shop.workspace source) library).run.run shop
      else (.error (.noParserSource (sourceDirectory shop.workspace source)), shop) := by
  rw [build, run_get_bind]
  dsimp only
  cases shop.workspace.has (Path.join (sourceDirectory shop.workspace source) "parser.c") with
  | false => rfl
  | true =>
    cases !force && !isStale shop.workspace (sourceDirectory shop.workspace source) library with
    | true => rfl
    | false => rfl

/-- The call is for the sources in the directory and for the library: it names `parser.c` and the
scanner that there is, the one in C++ first. -/
structure Compiles (w : Workspace) (slashOptions : Bool) (directory library : String)
    (call : CompilerCall) : Prop where
  cxx : call.cxx = w.has (Path.join directory "scanner.cc")
  parser : Path.join directory "parser.c" ∈ call.arguments
  scanner : ∀ name, name = "scanner.cc" ∨ name = "scanner.c" ∧ call.cxx = false →
    w.has (Path.join directory name) = true → Path.join directory name ∈ call.arguments
  shared : (if slashOptions then "/LD" else "-shared") ∈ call.arguments
  output : if slashOptions then "/Fe:" ++ library ∈ call.arguments
    else ["-o", library] <:+: call.arguments

theorem compiles_compilerCall (w : Workspace) (slashOptions : Bool) (directory library : String) :
    Compiles w slashOptions directory library
      (compilerCall w slashOptions directory library) where
  cxx := rfl
  parser := by simp [compilerCall]
  scanner := by
    rintro name (rfl | ⟨rfl, c⟩) there
    · simp [compilerCall, there]
    · have plain : w.has (Path.join directory "scanner.cc") = false := c
      simp [compilerCall, there, plain]
  shared := by cases slashOptions <;> simp [compilerCall]
  output := by
    cases slashOptions with
    | true => simp [compilerCall]
    | false => exact ⟨["-shared", "-fPIC", "-fno-exceptions", "-I", directory], _, rfl⟩

/-- The compiler is called once there is a directory for the library. -/
structure Called (shop : Workshop) (directory library : String) (w : Workspace)
    (call : CompilerCall) : Prop where
  made : parentMade shop.workspace library = (.ok (), w)
  call_eq : call = compilerCall w shop.compiler.slashOptions directory library
  compiles : Compiles w shop.compiler.slashOptions directory library call

/-- The library, unless there is no place for it, is what the compiler produced. -/
structure Produced (library : String) (contents : Contents) (before after : Workspace) : Prop where
  changes : ChangesOnly [library] before after
  file : ∀ f, after.entry library = .ok (.file f) → f.contents = contents ∧ f.modified = before.now

/-- What comes of compiling anew. There is no place for the library, or no compiler, or the compiler
runs once. If it ends well the build ends well, as long as the library is there then. -/
inductive Attempt (shop : Workshop) (directory library : String) :
    Except GrammarError BuildStatus → Workshop → Prop where
  | noPlace {e : OsError} {w : Workspace}
      (blocked : parentMade shop.workspace library = (.error e, w)) :
      Attempt shop directory library (.error (.io e)) { shop with workspace := w }
  | noCompiler {w : Workspace} {call : CompilerCall} {report : String}
      (called : Called shop directory library w call)
      (absent : shop.compiler.run w.files call = .absent report) :
      Attempt shop directory library (.error (.compilation report)) { shop with workspace := w }
  | failed {w : Workspace} {call : CompilerCall} {report : List UInt8}
      (called : Called shop directory library w call)
      (failed : shop.compiler.run w.files call = .failed report) :
      Attempt shop directory library (.error (.compilation (Utf8.decodeLossy report)))
        { shop with workspace := w, calls := call :: shop.calls }
  | ran {w after : Workspace} {call : CompilerCall} {result : Except GrammarError BuildStatus}
      (called : Called shop directory library w call)
      (outcome : shop.compiler.run w.files call = .nothing ∧ after = w ∨
        ∃ contents, shop.compiler.run w.files call = .produced contents ∧
          Produced library contents w after)
      (ended : result = if after.has library then .ok .built else
        .error (.compilation ("compiler succeeded but " ++ library ++ " was not produced"))) :
      Attempt shop directory library result
        { shop with workspace := after, calls := call :: shop.calls }

theorem Attempt.undecided {shop after : Workshop} {directory library : String}
    {result : Except GrammarError BuildStatus} (h : Attempt shop directory library result after) :
    result ≠ .ok .alreadyBuilt ∧ ∀ missing, result ≠ .error (.noParserSource missing) := by
  cases h with
  | noPlace => exact ⟨nofun, nofun⟩
  | noCompiler => exact ⟨nofun, nofun⟩
  | failed => exact ⟨nofun, nofun⟩
  | ran _ _ ended =>
    rw [ended]
    split
    · exact ⟨nofun, nofun⟩
    · exact ⟨nofun, nofun⟩

theorem run_compile (directory library : String) (shop : Workshop) :
    let call := compilerCall shop.workspace shop.compiler.slashOptions directory library
    (compile directory library).run.run shop =
      match shop.compiler.run shop.workspace.files call with
      | .absent report => (.error (.compilation report), shop)
      | .failed report =>
        (.error (.compilation (Utf8.decodeLossy report)), { shop with calls := call :: shop.calls })
      | .nothing => (.ok (), { shop with calls := call :: shop.calls })
      | .produced contents => (.ok (), { shop with
          calls := call :: shop.calls
          workspace := deliver shop.workspace library contents }) := by
  intro call
  rw [compile, run_get_bind]
  dsimp only
  rw [show compilerCall shop.workspace shop.compiler.slashOptions directory library = call from rfl]
  cases shop.compiler.run shop.workspace.files call <;> rfl

theorem produced_deliver (w : Workspace) (library : String) (contents : Contents) :
    Produced library contents w (deliver w library contents) where
  changes := deliver_changes w library contents
  file := by
    intro f there
    unfold deliver at there
    cases hwrite : w.files.write w.cwd w.now library contents with
    | ok files =>
      rw [hwrite] at there
      obtain ⟨_, g, hentry, written⟩ := Workspace.written_files hwrite
      cases hentry.symm.trans there
      exact written
    | error e =>
      -- a file that is there already could have been written over
      rw [hwrite] at there
      obtain ⟨files, hok⟩ := FileSystem.exists_write_of_file there w.now contents
      cases hwrite.symm.trans hok

theorem attempt_rebuild (directory library : String) (shop : Workshop) :
    Attempt shop directory library ((rebuild directory library).run.run shop).1
      ((rebuild directory library).run.run shop).2 := by
  unfold rebuild
  rw [run_bind, run_prepare]
  rcases made : parentMade shop.workspace library with ⟨e | ⟨⟩, w⟩
  · exact .noPlace made
  · dsimp only [Except.mapError]
    rw [run_bind, run_compile]
    dsimp only
    have called : Called shop directory library w
        (compilerCall w shop.compiler.slashOptions directory library) :=
      ⟨made, rfl, compiles_compilerCall w _ directory library⟩
    cases outcome : shop.compiler.run w.files
        (compilerCall w shop.compiler.slashOptions directory library) with
    | absent report => exact .noCompiler called outcome
    | failed report => exact .failed called outcome
    | nothing =>
      dsimp only
      rw [run_confirm]
      exact .ran called (.inl ⟨outcome, rfl⟩) rfl
    | produced contents =>
      dsimp only
      rw [run_confirm]
      exact .ran called (.inr ⟨contents, outcome, produced_deliver w library contents⟩) rfl

section

variable {source library : String} {force : Bool} {shop after : Workshop}

theorem run_build_of_missing
    (missing : shop.workspace.has (Path.join (sourceDirectory shop.workspace source) "parser.c") =
      false) :
    (build source library force).run.run shop =
      (.error (.noParserSource (sourceDirectory shop.workspace source)), shop) := by
  rw [run_build, missing]
  rfl

theorem run_build_of_upToDate
    (there : shop.workspace.has (Path.join (sourceDirectory shop.workspace source) "parser.c") =
      true)
    (upToDate : UpToDate shop.workspace (sourceDirectory shop.workspace source) library) :
    (build source library false).run.run shop = (.ok .alreadyBuilt, shop) := by
  rw [run_build, there, isStale_eq_false_iff.2 upToDate]
  rfl

theorem run_build_of_work
    (there : shop.workspace.has (Path.join (sourceDirectory shop.workspace source) "parser.c") =
      true)
    (work : force = true ∨
      ¬ UpToDate shop.workspace (sourceDirectory shop.workspace source) library) :
    (build source library force).run.run shop =
      (rebuild (sourceDirectory shop.workspace source) library).run.run shop := by
  have decision :
      (!force && !isStale shop.workspace (sourceDirectory shop.workspace source) library) =
        false := by
    rcases work with rfl | outdated
    · rfl
    · rw [← isStale_eq_false_iff, Bool.not_eq_false] at outdated
      rw [outdated, Bool.not_true, Bool.and_false]
  rw [run_build, there, decision]
  rfl

/-- A build keeps a `parser.c` where it is looked for. -/
theorem parserSource_kept
    (there : shop.workspace.has (Path.join (sourceDirectory shop.workspace source) "parser.c") =
      true)
    (ran : ((build source library force).run.run shop).2 = after) :
    after.workspace.has (Path.join (sourceDirectory after.workspace source) "parser.c") = true := by
  have changes := touches_build source library force shop
  rw [ran] at changes
  unfold sourceDirectory at there ⊢
  dsimp only at there ⊢
  split
  · assumption
  · rename_i gone
    -- what is not there afterwards was not there before, so the directory is the same
    split at there
    · rename_i nested
      exact absurd (changes.has nested) gone
    · exact changes.has there

theorem run_builds_of_upToDate
    (there : shop.workspace.has (Path.join (sourceDirectory shop.workspace source) "parser.c") =
      true)
    (upToDate : UpToDate shop.workspace (sourceDirectory shop.workspace source) library) (n : Nat) :
    ((List.replicate n library).mapM fun library => build source library false).run.run shop =
      (.ok (List.replicate n .alreadyBuilt), shop) := by
  induction n with
  | zero => rfl
  | succ n ih =>
    rw [List.replicate_succ, List.mapM_cons, run_bind, run_build_of_upToDate there upToDate]
    dsimp only
    rw [run_bind, ih]
    rfl

end

/-- Without `parser.c` a build fails and touches nothing. Otherwise an unforced build passes a
library over, and touches nothing, exactly if it is up to date; all other builds compile anew. After
a build that leaves the library up to date, further unforced builds change nothing. -/
theorem build_by_freshness (source library : String) (shop : Workshop) :
    let w := shop.workspace
    let nested := Path.join source "src"
    let directory := if w.has (Path.join nested "parser.c") then nested else source
    let built (force : Bool) := (build source library force).run.run shop
    (∀ force, (built force).1 = .error (.noParserSource directory) ↔
      w.has (Path.join directory "parser.c") = false) ∧
    (w.has (Path.join directory "parser.c") = false → ∀ force, (built force).2 = shop) ∧
    (w.has (Path.join directory "parser.c") = true →
      ((built false).1 = .ok .alreadyBuilt ↔ UpToDate w directory library) ∧
      (UpToDate w directory library → (built false).2 = shop) ∧
      ∀ force, force = true ∨ ¬ UpToDate w directory library →
        Attempt shop directory library (built force).1 (built force).2) ∧
    ∀ force status after, built force = (.ok status, after) →
      UpToDate after.workspace (sourceDirectory after.workspace source) library →
      ∀ n, ((List.replicate n library).mapM fun library => build source library false).run.run
        after = (.ok (List.replicate n .alreadyBuilt), after) := by
  intro w nested directory built
  have attempt (there : w.has (Path.join directory "parser.c") = true) (force : Bool)
      (work : force = true ∨ ¬ UpToDate w directory library) :
      Attempt shop directory library (built force).1 (built force).2 := by
    have hrun : built force = (rebuild directory library).run.run shop :=
      run_build_of_work there work
    rw [hrun]
    exact attempt_rebuild directory library shop
  have passed (there : w.has (Path.join directory "parser.c") = true)
      (upToDate : UpToDate w directory library) : built false = (.ok .alreadyBuilt, shop) :=
    run_build_of_upToDate there upToDate
  have failed (missing : w.has (Path.join directory "parser.c") = false) (force : Bool) :
      built force = (.error (.noParserSource directory), shop) :=
    run_build_of_missing missing
  have again (force : Bool) (status : BuildStatus) (after : Workshop)
      (ran : built force = (.ok status, after))
      (upToDate : UpToDate after.workspace (sourceDirectory after.workspace source) library)
      (n : Nat) :
      ((List.replicate n library).mapM fun library => build source library false).run.run after =
        (.ok (List.replicate n .alreadyBuilt), after) := by
    have there : w.has (Path.join directory "parser.c") = true := by
      rw [← Bool.not_eq_false]
      intro missing
      rw [failed missing] at ran
      cases ran
    have kept := parserSource_kept there (congrArg Prod.snd ran)
    exact run_builds_of_upToDate kept upToDate n
  clear_value built directory
  refine ⟨fun force => ⟨fun refused => ?_, fun missing => ?_⟩, fun missing force => ?_,
    fun there => ⟨⟨fun skipped => ?_, fun upToDate => ?_⟩, fun upToDate => ?_, attempt there⟩,
    again⟩
  · rw [← Bool.not_eq_true]
    intro there
    by_cases work : force = true ∨ ¬ UpToDate w directory library
    · exact (attempt there force work).undecided.2 directory refused
    · rw [not_or, not_not, Bool.not_eq_true] at work
      obtain ⟨rfl, upToDate⟩ := work
      rw [passed there upToDate] at refused
      cases refused
  · rw [failed missing]
  · rw [failed missing]
  · by_contra outdated
    exact (attempt there false (.inr outdated)).undecided.1 skipped
  · rw [passed there upToDate]
  · rw [passed there upToDate]

/-- A place with sources under `src`, one of which changed just now. A directory has the name of a
third one. -/
def nestedSources : Workshop where
  workspace := {
    files := { entries := [
      (["g"], .directory 3), (["g", "src"], .directory 3),
      (["g", "src", "parser.c"], .file ⟨.bytes [], 0o644, 4⟩),
      (["g", "src", "scanner.c"], .file ⟨.bytes [], 0o644, 9⟩),
      (["g", "src", "scanner.cc"], .directory 2)] }
    cwd := []
    now := 9 }
  compiler := { run := fun _ _ => .produced (.library (.grammar 14)) }

theorem build_by_freshness_nestedSources :
    ∃ after, (build "g" "out/cpp.so" false).run.run nestedSources = (.ok .built, after) ∧
      ∀ n, ((List.replicate n "out/cpp.so").mapM fun library => build "g" library false).run.run
        after = (.ok (List.replicate n .alreadyBuilt), after) := by
  have ended : ((build "g" "out/cpp.so" false).run.run nestedSources).1 = .ok .built := by
    decide +kernel
  have fresh : isStale ((build "g" "out/cpp.so" false).run.run nestedSources).2.workspace
      (sourceDirectory ((build "g" "out/cpp.so" false).run.run nestedSources).2.workspace "g")
      "out/cpp.so" = false := by
    decide +kernel
  rcases ran : (build "g" "out/cpp.so" false).run.run nestedSources with ⟨result, after⟩
  rw [ran] at ended fresh
  dsimp only at ended
  subst ended
  obtain ⟨_, _, _, again⟩ := build_by_freshness "g" "out/cpp.so" nestedSources
  exact ⟨after, rfl, again false .built after ran (isStale_eq_false_iff.1 fresh)⟩

end Grammar

end UsingRemoval
