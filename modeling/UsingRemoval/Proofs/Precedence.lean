import UsingRemoval.Config
import UsingRemoval.Proofs.Ancestors
import UsingRemoval.Proofs.Collecting
import UsingRemoval.Proofs.Places

/-!
Which layer of the configuration decides a setting. Every setting is the one of the strongest layer
that makes it: a layer that is silent about a setting, or a file that is not there, changes nothing.
-/

set_option autoImplicit false

namespace UsingRemoval

namespace Ordered

universe u v

variable {α : Type u} {κ : Type v} {key : α → κ} [Ord κ] [Std.LawfulEqOrd κ]

theorem lastIn_toList_iff (s : Ordered key) {a : α} : LastIn key s.toList a ↔ a ∈ s.toList :=
  lastIn_iff_mem fun _ ha _ hb => s.eq_of_key_eq ha hb

theorem find?_insertMany [Std.TransOrd κ] (s t : Ordered key) (k : κ) :
    (s.insertMany t.toList).find? k = (t.find? k).or (s.find? k) := by
  cases ht : t.find? k with
  | some a =>
    obtain ⟨ha, hk⟩ := find?_eq_some_iff.1 ht
    rw [Option.some_or, find?_eq_some_iff, mem_insertMany, lastIn_toList_iff]
    exact ⟨.inl ha, hk⟩
  | none =>
    have free (a : α) (ha : a ∈ t.toList) : key a ≠ k := by
      intro hk
      rw [find?_eq_some_iff.2 ⟨ha, hk⟩] at ht
      cases ht
    rw [Option.none_or]
    apply Option.ext
    intro a
    rw [find?_eq_some_iff, find?_eq_some_iff, mem_insertMany, lastIn_toList_iff]
    constructor
    · rintro ⟨ha | ⟨ha, _⟩, hk⟩
      · exact absurd hk (free a ha)
      · exact ⟨ha, hk⟩
    · rintro ⟨ha, rfl⟩
      exact ⟨.inr ⟨ha, free⟩, rfl⟩

end Ordered

theorem NamespaceMap.get?_insertMany (base layer : NamespaceMap) (name : String) :
    NamespaceMap.get? (base.insertMany layer.toList) name =
      (layer.get? name).or (base.get? name) := by
  rw [get?, Ordered.find?_insertMany, Option.map_or]
  rfl

theorem findSome?_id_cons {α : Type} (first : Option α) (rest : List (Option α)) :
    (first :: rest).findSome? id = first.or (rest.findSome? id) := by
  cases first <;> rfl

namespace Config

/-- The layer that a file gives, which is empty if there is no such file. -/
inductive Layer (w : Workspace) : Option String → Config → Prop
  | unnamed : Layer w none {}
  | absent {path : String} : w.has path = false → Layer w (some path) {}
  | written {path : String} {data : List UInt8} {text : String} {config : Config} :
      w.has path = true → w.read path = .ok data → Utf8.decode? data = some text →
      ofText? text = some config → Layer w (some path) config

theorem layer_of_ofFileIfAny {w : Workspace} {path : Option String} {config : Config}
    (h : ofFileIfAny w path = .ok config) : Layer w path config := by
  cases path with
  | none =>
    cases h
    exact .unnamed
  | some path =>
    cases hhas : w.has path with
    | false =>
      simp only [ofFileIfAny, Option.filter, hhas] at h
      cases h
      exact .absent hhas
    | true =>
      have hfile : ofFile w path = .ok config := by
        simpa [ofFileIfAny, Option.filter, hhas] using h
      unfold ofFile at hfile
      split at hfile
      · cases hfile
      · rename_i data hread
        split at hfile
        · cases hfile
        · rename_i text hdecode
          split at hfile
          · cases hfile
          · rename_i found hsettings
            cases hfile
            exact .written hhas hread hdecode hsettings

/-- The directory of the work tree: the nearest that holds `.git`, from the working directory up, or
the working directory if none does. -/
def IsWorkTree (w : Workspace) (directory : String) : Prop :=
  let HoldsGit (path : String) : Prop := w.has (Path.join path ".git")
  Path.Nearest HoldsGit w.directory directory ∨
    (∀ up, Path.AtOrAbove w.directory up → ¬ HoldsGit up) ∧ directory = w.directory

theorem isWorkTree_workTree (w : Workspace) : IsWorkTree w (workTree w) := by
  have search := Path.find?_ancestors (fun directory => w.has (Path.join directory ".git"))
    (Nat.lt_succ_self w.directory.length)
  unfold workTree
  dsimp only
  cases hfind : (Path.ancestors (w.directory.length + 1) w.directory).find? fun directory =>
      w.has (Path.join directory ".git") with
  | some found =>
    rw [hfind] at search
    exact .inl search
  | none =>
    rw [hfind] at search
    refine .inr ⟨?_, rfl⟩
    intro up habove
    simp [search up habove]

/-- The built-in settings with the layers over them, the strongest last. -/
def layered (global workspace : Config) (e : Environment) : Config :=
  ((initial.merge global).merge workspace).merge (ofEnvironment e)

theorem load_ok {w : Workspace} {e : Environment} {config : Config} (h : load w e = .ok config) :
    ∃ global workspace, Layer w (globalPath? e) global ∧
      Layer w (some (workspacePath w)) workspace ∧ config = layered global workspace e := by
  obtain ⟨_, _, h⟩ := bind_eq_ok_iff.1 h
  obtain ⟨global, hglobal, h⟩ := bind_eq_ok_iff.1 h
  obtain ⟨workspace, hworkspace, h⟩ := bind_eq_ok_iff.1 h
  cases h
  exact ⟨global, workspace, layer_of_ofFileIfAny hglobal, layer_of_ofFileIfAny hworkspace, rfl⟩

section

variable (global workspace : Config) (e : Environment)

theorem source_layered (source cache : Option String) :
    ((layered global workspace e).options e source cache).source =
      [source, e.tsSource, workspace.grammar.source, global.grammar.source,
        initial.grammar.source].findSome? id := by
  simp only [layered, options, merge, ofEnvironment, findSome?_id_cons, List.findSome?_nil,
    Option.or_none]

theorem library_layered (source cache : Option String) :
    ((layered global workspace e).options e source cache).library =
      ([cache, e.tsOut, workspace.grammar.cache, global.grammar.cache,
        initial.grammar.cache].findSome? id).getD e.defaultLibrary := by
  simp only [layered, options, merge, ofEnvironment, findSome?_id_cons, List.findSome?_nil,
    Option.or_none]

theorem usesBuiltin_layered :
    ([initial, global, workspace].filterMap fun layer => layer.symbols.builtin).getLast? =
      some (layered global workspace e).symbols.usesBuiltin := by
  cases hglobal : global.symbols.builtin <;> cases hworkspace : workspace.symbols.builtin <;>
    simp [hglobal, hworkspace, layered, initial, merge, ofEnvironment, SymbolSettings.usesBuiltin]

theorem namespaces_layered (name : String) :
    NamespaceMap.get? (layered global workspace e).symbols.namespaces name =
      (workspace.symbols.namespaces.get? name).or
        ((global.symbols.namespaces.get? name).or (initial.symbols.namespaces.get? name)) := by
  have silent : NamespaceMap.get? (ofEnvironment e).symbols.namespaces name = none := rfl
  simp only [layered, merge, NamespaceMap.get?_insertMany, silent, Option.none_or]

theorem fallback_layered (name : String) :
    (layered global workspace e).symbols.fallback.get? name =
      [workspace.symbols.namespaces.get? name, global.symbols.namespaces.get? name,
        initial.symbols.namespaces.get? name,
        if (layered global workspace e).symbols.usesBuiltin then NamespaceMap.standard.get? name
          else none].findSome? id := by
  rw [SymbolSettings.fallback, NamespaceMap.get?_insertMany, namespaces_layered]
  simp only [findSome?_id_cons, List.findSome?_nil, Option.or_none, Option.or_assoc]
  split <;> rfl

end

/-- A loaded configuration takes every setting from the strongest layer that makes it: command line,
environment, work tree, user, built-in settings. Names that no layer configures are those of the
built-in table, if the last layer that says so wants it. -/
theorem load_precedence {w : Workspace} {e : Environment} {config : Config}
    (loaded : load w e = .ok config) :
    ∃ directory global workspace, IsWorkTree w directory ∧
      Layer w (globalPath? e) global ∧
      Layer w (some (Path.join directory ".remusing/config.toml")) workspace ∧
      (∀ source cache,
        (config.options e source cache).source =
          [source, e.tsSource, workspace.grammar.source, global.grammar.source,
            initial.grammar.source].findSome? id ∧
        (config.options e source cache).library =
          ([cache, e.tsOut, workspace.grammar.cache, global.grammar.cache,
            initial.grammar.cache].findSome? id).getD e.defaultLibrary) ∧
      ([initial, global, workspace].filterMap fun layer => layer.symbols.builtin).getLast? =
        some config.symbols.usesBuiltin ∧
      ∀ name, config.symbols.fallback.get? name =
        [workspace.symbols.namespaces.get? name, global.symbols.namespaces.get? name,
          initial.symbols.namespaces.get? name,
          if config.symbols.usesBuiltin then NamespaceMap.standard.get? name
            else none].findSome? id := by
  obtain ⟨global, workspace, hglobal, hworkspace, rfl⟩ := load_ok loaded
  exact ⟨workTree w, global, workspace, isWorkTree_workTree w, hglobal, hworkspace,
    fun source cache => ⟨source_layered global workspace e source cache,
      library_layered global workspace e source cache⟩,
    usesBuiltin_layered global workspace e, fallback_layered global workspace e⟩

private def textFile (text : String) : Entry := .file ⟨.bytes (Utf8.encode text), 0o644, 0⟩

/-- A user's file and the file of a work tree, seen from a directory within the work tree. -/
def twoFiles : Workspace where
  files := { entries := [
    (["home"], .directory 0), (["home", ".config"], .directory 0),
    (["home", ".config", "remusing"], .directory 0),
    (["home", ".config", "remusing", "config.toml"],
      textFile "[grammar]\ncache = \"g.so\"\n[symbols]\nbuiltin = false\n"),
    (["repo"], .directory 0), (["repo", ".git"], .directory 0),
    (["repo", ".remusing"], .directory 0),
    (["repo", ".remusing", "config.toml"], textFile "symbols.namespaces.list = \"ours\"\n"),
    (["repo", "src"], .directory 0)] }
  cwd := ["repo", "src"]
  now := 0

theorem load_precedence_twoFiles :
    let e : Environment := { home := some "", accountHome := some "/home" }
    ∃ config directory global workspace, load twoFiles e = .ok config ∧
      IsWorkTree twoFiles directory ∧
      Layer twoFiles (some "/home/.config/remusing/config.toml") global ∧
      Layer twoFiles (some (Path.join directory ".remusing/config.toml")) workspace ∧
      ([none, none, workspace.grammar.cache, global.grammar.cache, none].findSome? id).getD
        e.defaultLibrary = "g.so" ∧
      [workspace.symbols.namespaces.get? "list", global.symbols.namespaces.get? "list",
        none, none].findSome? id = some "ours" := by
  intro e
  have values : (load twoFiles e).toOption.map (fun config =>
      ((config.options e none none).library, config.symbols.usesBuiltin,
        config.symbols.fallback.get? "list")) = some ("g.so", false, some "ours") := by
    decide +kernel
  cases loaded : load twoFiles e with
  | error cause =>
    rw [loaded] at values
    cases values
  | ok config =>
    rw [loaded] at values
    obtain ⟨hlibrary, hrest⟩ := Prod.mk.inj (Option.some.inj values)
    obtain ⟨hbuiltin, hname⟩ := Prod.mk.inj hrest
    obtain ⟨directory, global, workspace, tree, user, shared, options, _, names⟩ :=
      load_precedence loaded
    have library := (options none none).2.symm.trans hlibrary
    have list := (names "list").symm.trans hname
    rw [hbuiltin] at list
    exact ⟨config, directory, global, workspace, rfl, tree, user, shared, library, list⟩

end Config

end UsingRemoval
