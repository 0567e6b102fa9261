import UsingRemoval.SourceFile

/-!
What a change to the files leaves alone. A path is followed through directories only, so as long as
directories stay, a path that led to a place still leads there; this is why what one step changes
can be said in terms of paths and added up over many steps. The times of directories do not matter
for that, so what stands at a place is looked at without them.
-/

set_option autoImplicit false

namespace UsingRemoval

theorem bind_eq_ok_iff {ε α β : Type} {x : Except ε α} {next : α → Except ε β} {b : β} :
    x >>= next = .ok b ↔ ∃ a, x = .ok a ∧ next a = .ok b := by
  cases x <;> simp [bind, Except.bind]

theorem mapError_eq_ok_iff {ε ε' α : Type} {x : Except ε α} {why : ε → ε'} {a : α} :
    x.mapError why = .ok a ↔ x = .ok a := by
  cases x with
  | error e => exact ⟨nofun, nofun⟩
  | ok b =>
    have same : (.ok b : Except ε' α) = .ok a ↔ (.ok b : Except ε α) = .ok a := by simp
    exact same

theorem run_bind {ε σ α β : Type} (step : ExceptT ε (StateM σ) α)
    (next : α → ExceptT ε (StateM σ) β) (s : σ) :
    (step >>= next).run.run s =
      match step.run.run s with
      | (.ok a, t) => (next a).run.run t
      | (.error e, t) => (.error e, t) := by
  simp only [ExceptT.run_bind, StateT.run_bind]
  rcases step.run.run s with ⟨_ | a, t⟩ <;> rfl

namespace FileSystem

variable {fs before after : FileSystem} {place names : List String} {entry : Entry} {f : File}

private theorem lookup_filter_ne (entries : List (List String × Entry)) (h : names ≠ place) :
    (entries.filter fun e => e.1 != place).lookup names = entries.lookup names := by
  induction entries with
  | nil => rfl
  | cons e rest ih =>
    obtain ⟨key, item⟩ := e
    rw [List.lookup_cons, List.filter_cons]
    by_cases hkey : key = place
    · simpa [hkey, beq_false_of_ne h] using ih
    · simp only [bne_iff_ne, ne_eq, hkey, not_false_eq_true, if_true, List.lookup_cons, ih]

theorem find?_remove_of_ne (h : names ≠ place) :
    (fs.remove place).find? names = fs.find? names := by
  simp only [find?, remove, lookup_filter_ne fs.entries h]

theorem find?_remove_self (h : place ≠ []) : (fs.remove place).find? place = none := by
  rw [find?, if_neg h, List.lookup_eq_none_iff]
  intro e he
  have hne := (List.mem_filter.1 he).2
  rwa [bne_comm] at hne

theorem find?_put_of_ne (h : names ≠ place) :
    (fs.put place entry).find? names = fs.find? names := by
  simp only [find?, put, List.lookup_cons, beq_false_of_ne h, lookup_filter_ne fs.entries h]

theorem find?_put_self (fs : FileSystem) (entry : Entry) (h : place ≠ []) :
    (fs.put place entry).find? place = some entry := by
  simp [find?, put, h]

/-- A file, a directory or nothing. -/
def standing (fs : FileSystem) (names : List String) : Option (Option File) :=
  (fs.find? names).map Entry.file?

def file? (fs : FileSystem) (names : List String) : Option File :=
  (fs.standing names).join

theorem standing_eq_none_iff : fs.standing names = none ↔ fs.find? names = none :=
  Option.map_eq_none_iff

theorem standing_eq_directory_iff :
    fs.standing names = some none ↔ ∃ time, fs.find? names = some (.directory time) := by
  unfold standing
  rcases fs.find? names with _ | time | f <;> simp [Entry.file?]

theorem standing_eq_file_iff :
    fs.standing names = some (some f) ↔ fs.find? names = some (.file f) := by
  unfold standing
  rcases fs.find? names with _ | time | f <;> simp [Entry.file?]

theorem file?_eq_some_iff : fs.file? names = some f ↔ fs.standing names = some (some f) :=
  Option.join_eq_some_iff

theorem file?_of_standing_eq (same : after.standing names = before.standing names) :
    after.file? names = before.file? names :=
  congrArg Option.join same

theorem standing_touch (fs : FileSystem) (directory names : List String) (now : Int) :
    (fs.touch directory now).standing names = fs.standing names := by
  unfold touch
  split
  · simp only [standing, find?]
    split <;> rfl
  · rename_i notRoot
    split
    · rename_i time found
      by_cases h : names = directory
      · rw [h, standing, standing, find?_put_self _ _ notRoot, found]
        rfl
      · rw [standing, find?_put_of_ne h, standing]
    · rfl

/-- The file stands at the place, and elsewhere all is as before. -/
structure Puts (place : List String) (f : File) (before after : FileSystem) : Prop where
  there : after.standing place = some (some f)
  elsewhere : ∀ names, names ≠ place → after.standing names = before.standing names

theorem puts_put (f : File) (h : place ≠ []) : Puts place f fs (fs.put place (.file f)) where
  there := standing_eq_file_iff.2 (fs.find?_put_self _ h)
  elsewhere := fun _ hne => congrArg (Option.map Entry.file?) (find?_put_of_ne hne)

theorem Puts.touch (puts : Puts place f before after) (directory : List String) (now : Int) :
    Puts place f before (after.touch directory now) where
  there := (standing_touch ..).trans puts.there
  elsewhere := fun names hne => (standing_touch ..).trans (puts.elsewhere names hne)

theorem puts_link (f : File) (now : Int) (h : place ≠ []) :
    Puts place f fs (fs.link place (.file f) now) :=
  (puts_put f h).touch place.dropLast now

theorem standing_unlink_of_ne (now : Int) (h : names ≠ place) :
    (fs.unlink place now).standing names = fs.standing names :=
  (standing_touch ..).trans (congrArg (Option.map Entry.file?) (find?_remove_of_ne h))

theorem standing_unlink_self (now : Int) (h : place ≠ []) :
    (fs.unlink place now).standing place = none :=
  (standing_touch ..).trans (standing_eq_none_iff.2 (find?_remove_self h))

theorem standing_root (fs : FileSystem) : fs.standing [] = some none := rfl

theorem ne_root (fs : FileSystem) (h : fs.standing place ≠ some none) : place ≠ [] := by
  rintro rfl
  exact h fs.standing_root

/-! ### Following paths -/

/-- Every directory is still one. -/
def KeepsDirectories (before after : FileSystem) : Prop :=
  ∀ names, before.standing names = some none → after.standing names = some none

theorem walk_of_keepsDirectories (keeps : KeepsDirectories before after) {here path : List String}
    {p : Place} (h : before.walk here path = .ok p) : after.walk here path = .ok p := by
  fun_induction before.walk here path with
  | case1 here => exact h
  | case2 here rest ih =>
    rw [walk]
    exact ih h
  | case3 here rest ih =>
    rw [walk]
    exact ih h
  | case4 here name hdot hup =>
    rw [walk]
    · exact h
    · exact hdot
    · exact hup
  | case5 here name rest hdot hup hrest found => cases h
  | case6 here name rest hdot hup hrest f found => cases h
  | case7 here name rest hdot hup hrest time found ih =>
    obtain ⟨later, still⟩ :=
      standing_eq_directory_iff.1 (keeps _ (standing_eq_directory_iff.2 ⟨time, found⟩))
    rw [walk, still]
    · exact ih h
    all_goals assumption

theorem place_of_keepsDirectories (keeps : KeepsDirectories before after) {cwd : List String}
    {path : String} {p : Place} (h : before.place cwd path = .ok p) :
    after.place cwd path = .ok p := by
  unfold place at h ⊢
  split at h
  · cases h
  · rename_i first rest htext
    dsimp only at h ⊢
    cases hwalk : before.walk (if first = '/' then [] else cwd)
        (((first :: rest).splitOn '/').map String.ofList |>.filter (· != "")) with
    | error e =>
      rw [hwalk] at h
      cases h
    | ok found =>
      rw [hwalk] at h
      rw [walk_of_keepsDirectories keeps hwalk]
      exact h

theorem entry_eq_file_iff {cwd : List String} {path : String} :
    fs.entry cwd path = .ok (.file f) ↔
      ∃ names, fs.place cwd path = .ok ⟨names, false⟩ ∧ fs.standing names = some (some f) := by
  unfold entry
  cases hplace : fs.place cwd path with
  | error e => simp [bind, Except.bind]
  | ok p =>
    obtain ⟨names, asDirectory⟩ := p
    simp only [bind, Except.bind, Except.ok.injEq, Place.mk.injEq, standing_eq_file_iff]
    constructor
    · intro h
      split at h
      · cases h
      · rename_i g hfound
        cases asDirectory with
        | true => cases h
        | false =>
          cases h
          exact ⟨names, ⟨rfl, rfl⟩, hfound⟩
      · cases h
    · rintro ⟨_, ⟨rfl, rfl⟩, hfound⟩
      rw [hfound]
      rfl

/-! ### Single changes -/

theorem write_ok {cwd : List String} {now : Int} {path : String} {contents : Contents}
    (h : before.write cwd now path contents = .ok after) :
    ∃ names f, before.place cwd path = .ok ⟨names, false⟩ ∧
      before.standing names ≠ some none ∧
      (∀ old, before.standing names = some (some old) → f.mode = old.mode) ∧
      f.contents = contents ∧ f.modified = now ∧ Puts names f before after := by
  obtain ⟨⟨names, asDirectory⟩, led, h⟩ := bind_eq_ok_iff.1 h
  dsimp only at h
  split at h
  · cases h
  · rename_i old hfound
    cases asDirectory with
    | true => cases h
    | false =>
      cases h
      have standing := standing_eq_file_iff.2 hfound
      have hne : names ≠ [] := before.ne_root (by simp [standing])
      exact ⟨names, _, led, by simp [standing], by simp [standing], rfl, rfl, puts_put _ hne⟩
  · rename_i hfound
    cases asDirectory with
    | true => cases h
    | false =>
      cases h
      have standing := standing_eq_none_iff.2 hfound
      have hne : names ≠ [] := before.ne_root (by simp [standing])
      exact ⟨names, _, led, by simp [standing], by simp [standing], rfl, rfl, puts_link _ now hne⟩

theorem exists_write_of_file {cwd : List String} {path : String}
    (there : fs.entry cwd path = .ok (.file f)) (now : Int) (contents : Contents) :
    ∃ after, fs.write cwd now path contents = .ok after := by
  obtain ⟨names, led, standing⟩ := entry_eq_file_iff.1 there
  have found := standing_eq_file_iff.1 standing
  simp [write, led, found, bind, Except.bind, pure, Except.pure]

end FileSystem

namespace Workspace

/-- The same directory and moment, and the same calls refused; the files may differ. -/
structure SameView (before after : Workspace) : Prop where
  cwd : after.cwd = before.cwd
  now : after.now = before.now
  refuses : after.refuses = before.refuses

theorem SameView.refl (w : Workspace) : SameView w w := ⟨rfl, rfl, rfl⟩

theorem SameView.trans {first middle last : Workspace} (h : SameView first middle)
    (h' : SameView middle last) : SameView first last :=
  ⟨h'.cwd.trans h.cwd, h'.now.trans h.now, h'.refuses.trans h.refuses⟩

theorem SameView.withFiles {before after : Workspace} (h : SameView before after)
    (files : FileSystem) : SameView before { after with files } :=
  ⟨h.cwd, h.now, h.refuses⟩

theorem call_eq_ok_iff {α : Type} {w : Workspace} {c : OsCall} {result : Except OsError α} {a : α} :
    w.call c result = .ok a ↔ w.refuses c = none ∧ result = .ok a := by
  unfold call
  cases w.refuses c <;> simp

/-- The path leads to the place, whether or not anything stands there. -/
def LeadsTo (w : Workspace) (path : String) (names : List String) : Prop :=
  ∃ p, w.files.place w.cwd path = .ok p ∧ p.names = names

/-- Files change only where one of the paths leads, and keep their permissions even there. No file
and no directory goes, and no file comes elsewhere. -/
structure ChangesOnly (paths : List String) (before after : Workspace) : Prop extends
    SameView before after where
  directories : before.files.KeepsDirectories after.files
  files : ∀ names, (∀ path ∈ paths, ¬ after.LeadsTo path names) →
    after.files.file? names = before.files.file? names
  modes : ∀ names f, before.files.file? names = some f →
    ∃ g, after.files.file? names = some g ∧ g.mode = f.mode

namespace ChangesOnly

variable {paths more : List String} {first middle last : Workspace}

theorem refl (paths : List String) (w : Workspace) : ChangesOnly paths w w where
  toSameView := .refl w
  directories := fun _ h => h
  files := fun _ _ => rfl
  modes := fun _ f h => ⟨f, h, rfl⟩

theorem place (h : ChangesOnly paths first last) {path : String} {p : FileSystem.Place}
    (led : first.files.place first.cwd path = .ok p) : last.files.place last.cwd path = .ok p := by
  rw [h.cwd]
  exact FileSystem.place_of_keepsDirectories h.directories led

theorem mono (h : ChangesOnly paths first last) (sub : ∀ path ∈ paths, path ∈ more) :
    ChangesOnly more first last where
  toSameView := h.toSameView
  directories := h.directories
  files := by
    intro names elsewhere
    apply h.files
    intro path hpath
    exact elsewhere path (sub path hpath)
  modes := h.modes

theorem trans (h : ChangesOnly paths first middle) (h' : ChangesOnly paths middle last) :
    ChangesOnly paths first last where
  toSameView := h.toSameView.trans h'.toSameView
  directories := fun names hnames => h'.directories names (h.directories names hnames)
  files := by
    intro names elsewhere
    rw [h'.files names elsewhere]
    apply h.files
    -- A path that led to the place in the middle would still lead there at the end.
    rintro path hpath ⟨p, led, rfl⟩
    exact elsewhere path hpath ⟨p, h'.place led, rfl⟩
  modes := by
    intro names f hf
    obtain ⟨g, hg, hmode⟩ := h.modes names f hf
    obtain ⟨k, hk, hmode'⟩ := h'.modes names g hg
    exact ⟨k, hk, hmode'.trans hmode⟩

theorem of_same_standing (view : SameView first last)
    (same : ∀ names, last.files.standing names = first.files.standing names) :
    ChangesOnly paths first last where
  toSameView := view
  directories := fun names h => (same names).trans h
  files := fun names _ => FileSystem.file?_of_standing_eq (same names)
  modes := fun names f hf => ⟨f, (FileSystem.file?_of_standing_eq (same names)).trans hf, rfl⟩

theorem of_directory {place : List String} (free : first.files.standing place = none) :
    ChangesOnly paths first
      { first with files := first.files.link place (.directory first.now) first.now } := by
  have hne : place ≠ [] := first.files.ne_root (by simp [free])
  have other {names : List String} (h : names ≠ place) :
      (first.files.link place (.directory first.now) first.now).standing names =
        first.files.standing names :=
    (FileSystem.standing_touch ..).trans
      (congrArg (Option.map Entry.file?) (FileSystem.find?_put_of_ne h))
  have there : (first.files.link place (.directory first.now) first.now).standing place =
      some none :=
    (FileSystem.standing_touch ..).trans
      (FileSystem.standing_eq_directory_iff.2 ⟨_, FileSystem.find?_put_self _ _ hne⟩)
  refine ⟨(SameView.refl first).withFiles _, ?_, ?_, ?_⟩
  · intro names hnames
    by_cases h : names = place
    · rw [h, there]
    · rw [other h, hnames]
  · intro names _
    by_cases h : names = place
    · simp only [FileSystem.file?, h, there, free, Option.join_some, Option.join_none]
    · exact FileSystem.file?_of_standing_eq (other h)
  · intro names f hf
    have h : names ≠ place := by
      rintro rfl
      rw [FileSystem.file?_eq_some_iff, free] at hf
      cases hf
    exact ⟨f, (FileSystem.file?_of_standing_eq (other h)).trans hf, rfl⟩

theorem of_puts {path : String} {p : FileSystem.Place} {f : File} (view : SameView first last)
    (led : first.files.place first.cwd path = .ok p)
    (fileOrNothing : first.files.standing p.names ≠ some none)
    (mode : ∀ old, first.files.standing p.names = some (some old) → f.mode = old.mode)
    (puts : FileSystem.Puts p.names f first.files last.files) :
    ChangesOnly [path] first last := by
  have directories : first.files.KeepsDirectories last.files := by
    intro names hnames
    have hne : names ≠ p.names := by
      rintro rfl
      exact fileOrNothing hnames
    rw [puts.elsewhere names hne, hnames]
  refine ⟨view, directories, ?_, ?_⟩
  · intro names notLed
    have hne : names ≠ p.names := by
      rintro rfl
      apply notLed path (List.mem_singleton_self path)
      refine ⟨p, ?_, rfl⟩
      rw [view.cwd]
      exact FileSystem.place_of_keepsDirectories directories led
    exact FileSystem.file?_of_standing_eq (puts.elsewhere names hne)
  · intro names old hold
    by_cases h : names = p.names
    · subst h
      have hmode := mode old (FileSystem.file?_eq_some_iff.1 hold)
      exact ⟨f, FileSystem.file?_eq_some_iff.2 puts.there, hmode⟩
    · exact ⟨old, (FileSystem.file?_of_standing_eq (puts.elsewhere names h)).trans hold, rfl⟩

end ChangesOnly

variable {w after : Workspace} {path : String}

theorem entry_of_file {names : List String} {f : File}
    (led : w.files.place w.cwd path = .ok ⟨names, false⟩) (kept : ChangesOnly [path] w after)
    (there : after.files.standing names = some (some f)) : after.entry path = .ok (.file f) :=
  FileSystem.entry_eq_file_iff.2 ⟨names, kept.place led, there⟩

theorem ChangesOnly.entry_file {paths : List String} (kept : ChangesOnly paths w after) {f : File}
    (h : w.entry path = .ok (.file f)) :
    ∃ g, after.entry path = .ok (.file g) ∧ g.mode = f.mode := by
  obtain ⟨names, led, there⟩ := FileSystem.entry_eq_file_iff.1 h
  obtain ⟨g, hg, hmode⟩ := kept.modes names f (FileSystem.file?_eq_some_iff.2 there)
  refine ⟨g, FileSystem.entry_eq_file_iff.2 ⟨names, kept.place led, ?_⟩, hmode⟩
  exact FileSystem.file?_eq_some_iff.1 hg

theorem written_files {contents : Contents} {files : FileSystem}
    (h : w.files.write w.cwd w.now path contents = .ok files) :
    ChangesOnly [path] w { w with files } ∧ ∃ f,
      Workspace.entry { w with files } path = .ok (.file f) ∧
        f.contents = contents ∧ f.modified = w.now := by
  obtain ⟨names, f, led, notDirectory, mode, hcontents, hmodified, puts⟩ := FileSystem.write_ok h
  have kept : ChangesOnly [path] w { w with files } :=
    .of_puts ((SameView.refl w).withFiles files) led notDirectory mode puts
  exact ⟨kept, f, entry_of_file led kept puts.there, hcontents, hmodified⟩

theorem write_ok {contents : Contents} (h : w.write path contents = .ok after) :
    ChangesOnly [path] w after ∧
      ∃ f, after.entry path = .ok (.file f) ∧ f.contents = contents ∧ f.modified = w.now := by
  obtain ⟨files, hfiles, h⟩ := bind_eq_ok_iff.1 h
  cases h
  exact written_files (call_eq_ok_iff.1 hfiles).2

theorem createDirectory_ok (h : w.createDirectory path = .ok after) : ChangesOnly [] w after := by
  obtain ⟨files, hfiles, h⟩ := bind_eq_ok_iff.1 h
  cases h
  obtain ⟨p, _, made⟩ := bind_eq_ok_iff.1 (call_eq_ok_iff.1 hfiles).2
  split at made
  · cases made
  · rename_i hfound
    cases made
    exact .of_directory (FileSystem.standing_eq_none_iff.2 hfound)

theorem ensureDirectories_changes (fuel : Nat) (path : String) (w : Workspace) :
    ChangesOnly [] w (ensureDirectories fuel path w).2 := by
  have orThere (path : String) (e : OsError) (w : Workspace) :
      (if w.hasDirectory path then ((.ok (), w) : Except OsError Unit × Workspace)
        else (.error e, w)).2 = w := by
    split <;> rfl
  induction fuel generalizing path w with
  | zero => exact .refl [] w
  | succ fuel ih =>
    rw [ensureDirectories]
    dsimp only
    split
    · exact .refl [] w
    · split
      · rename_i made
        exact createDirectory_ok made
      · split
        · exact .refl [] w
        · rename_i up _
          have above := ih up w
          split
          · rename_i hup
            rwa [hup] at above
          · rename_i hup
            rw [hup] at above
            split
            · rename_i made
              exact above.trans (createDirectory_ok made)
            · rw [orThere]
              exact above
      · rw [orThere]
        exact .refl [] w

/-- A file stands where nothing stood, and all else is as before. -/
structure Adds (place : List String) (f : File) (before after : Workspace) : Prop extends
    SameView before after where
  free : before.files.standing place = none
  puts : FileSystem.Puts place f before.files after.files

namespace Adds

variable {place : List String} {f : File} {more : Workspace}

theorem ne_root (added : Adds place f w more) : place ≠ [] :=
  w.files.ne_root (by simp [added.free])

theorem keepsDirectories (added : Adds place f w more) : w.files.KeepsDirectories more.files := by
  intro names hnames
  have hne : names ≠ place := by
    rintro rfl
    rw [added.free] at hnames
    cases hnames
  rw [added.puts.elsewhere names hne, hnames]

theorem putFile (added : Adds place f w more) (g : File) :
    Adds place g w (more.putFile place g) where
  toSameView := added.toSameView.withFiles _
  free := added.free
  puts := by
    have again : FileSystem.Puts place g more.files (more.putFile place g).files :=
      FileSystem.puts_put g added.ne_root
    refine ⟨again.there, fun names h => ?_⟩
    exact (again.elsewhere names h).trans (added.puts.elsewhere names h)

theorem standing_unlink (added : Adds place f w more) (names : List String) (now : Int) :
    (more.files.unlink place now).standing names = w.files.standing names := by
  by_cases h : names = place
  · rw [h, added.free, FileSystem.standing_unlink_self now added.ne_root]
  · rw [FileSystem.standing_unlink_of_ne now h, added.puts.elsewhere names h]

theorem discard (added : Adds place f w more) (directory : String) :
    ChangesOnly [] w (more.discard directory place) ∨
      w.refuses (.removeTemporary directory) ≠ none ∧ more.discard directory place = more := by
  rw [Workspace.discard, call, ← added.refuses]
  cases more.refuses (.removeTemporary directory) with
  | none =>
    exact .inl (.of_same_standing (added.toSameView.withFiles _)
      fun names => added.standing_unlink names more.now)
  | some e => exact .inr ⟨nofun, rfl⟩

end Adds

/-- Files change only where one of the paths leads. Besides, a temporary file may have been left, if
it could not be taken away. -/
def Abandons (paths : List String) (before after : Workspace) : Prop :=
  ChangesOnly paths before after ∨
    ∃ directory middle place f, before.refuses (.removeTemporary directory) ≠ none ∧
      ChangesOnly paths before middle ∧ Adds place f middle after

/-- A file is as it was unless one of the paths leads to it. -/
theorem Abandons.file? {paths : List String} (h : Abandons paths w after) {names : List String}
    {f : File} (there : w.files.file? names = some f)
    (elsewhere : ∀ path ∈ paths, ¬ after.LeadsTo path names) :
    after.files.file? names = some f := by
  rcases h with kept | ⟨_, middle, place, g, _, kept, added⟩
  · rw [kept.files names elsewhere, there]
  · have notLed (path : String) (hpath : path ∈ paths) : ¬ middle.LeadsTo path names := by
      rintro ⟨p, led, rfl⟩
      refine elsewhere path hpath ⟨p, ?_, rfl⟩
      rw [added.cwd]
      exact FileSystem.place_of_keepsDirectories added.keepsDirectories led
    have still : middle.files.file? names = some f := by
      rw [kept.files names notLed, there]
    have hne : names ≠ place := by
      rintro rfl
      rw [FileSystem.file?_eq_some_iff, added.free] at still
      cases still
    rw [FileSystem.file?_of_standing_eq (added.puts.elsewhere names hne), still]

end Workspace

namespace SourceFile

open Workspace

variable {w opened after : Workspace} {path : String} {data : List UInt8}

theorem write_ok (h : write w path data = .ok after) :
    ChangesOnly [path] w after ∧
      ∃ f, after.entry path = .ok (.file f) ∧ f.contents = .bytes data := by
  obtain ⟨only, f, hentry, hcontents, _⟩ := Workspace.write_ok (mapError_eq_ok_iff.1 h)
  exact ⟨only, f, hentry, hcontents⟩

end SourceFile
end UsingRemoval
