import Mathlib.Data.List.Forall2
import Mathlib.Data.List.ReduceOption
import Lexis.Proofs.File.Path
import Lexis.Proofs.Text.Utf8
import Lexis.Proofs.UnitName.Faults
import Lexis.Proofs.Workspace.Names

/-!
# What loading does

Loading goes down from directory to directory. Every fact about it is a fact about one directory,
whose entries are loaded each by itself before what they hold is put together, and an induction over
the directories below.

- `FileSystem.loadModule_eq_ok_iff`, `FileSystem.load_eq_ok_iff`: when one directory is loaded, and
  what is made of it.
- `FileSystem.loading`: the induction. Paths grow on the way down, and no directory's path is as
  long as the limit.
- `FileSystem.Reaches`: the names that loading comes by.
- `Module.Within`, `Workspace.Holds`: the modules at every depth of a workspace.
- `FileSystem.exists_of_holds`: every module of a loaded workspace is what its own path is loaded
  to.
-/

namespace Lexis

/-! ## Entries put together -/

section Entries

variable {σ : Type} {load : FileName → Except LoadError (Option (Package SourceText))}
  {add : σ → Package SourceText → Except LoadError σ} {found result : σ} {names : List FileName}
  {loaded : List (Option (Package SourceText))}

/-- Where every entry can be loaded, what they hold is added in order. -/
theorem addEntries_of_loads (h : List.Forall₂ (fun name one => load name = .ok one) names loaded) :
    addEntries load add found names = loaded.reduceOption.foldlM add found := by
  induction h generalizing found with
  | nil => rfl
  | @cons name one names loaded hload _ ih =>
    rw [addEntries, hload]
    cases one with
    | none => exact ih
    | some package =>
      rw [List.reduceOption_cons_of_some, List.foldlM_cons]
      cases hadd : add found package with
      | error => simp [hadd, bind, Except.bind]
      | ok next => simpa [hadd, bind, Except.bind] using ih

/-- Where entries are put together each can be loaded. -/
theorem exists_loads_of_addEntries (h : addEntries load add found names = .ok result) :
    ∃ loaded, List.Forall₂ (fun name one => load name = .ok one) names loaded := by
  induction names generalizing found with
  | nil => exact ⟨[], .nil⟩
  | cons name names ih =>
    rw [addEntries] at h
    split at h
    · cases h
    next hload =>
      obtain ⟨loaded, hloaded⟩ := ih h
      exact ⟨none :: loaded, .cons hload hloaded⟩
    next package hload =>
      split at h
      · cases h
      · obtain ⟨loaded, hloaded⟩ := ih h
        exact ⟨some package :: loaded, .cons hload hloaded⟩

/-- Entries are put together if each can be loaded and all that they hold can be added. -/
theorem addEntries_eq_ok_iff :
    addEntries load add found names = .ok result
      ↔ ∃ loaded, List.Forall₂ (fun name one => load name = .ok one) names loaded
        ∧ loaded.reduceOption.foldlM add found = .ok result := by
  constructor
  · intro h
    obtain ⟨loaded, hloaded⟩ := exists_loads_of_addEntries h
    exact ⟨loaded, hloaded, (addEntries_of_loads hloaded).symm.trans h⟩
  · rintro ⟨loaded, hloaded, hresult⟩
    exact (addEntries_of_loads hloaded).trans hresult

/-- What is found under each of some names, where something is found under each. -/
theorem exists_loaded (h : ∀ name ∈ names, ∃ one, load name = .ok one) :
    ∃ loaded, List.Forall₂ (fun name one => load name = .ok one) names loaded := by
  choose! one hone using h
  exact ⟨names.map one, List.forall₂_map_right_iff.2 (List.forall₂_same.2 hone)⟩

/-- What was found under some names is what is found under one of them. -/
theorem mem_reduceOption_iff {package : Package SourceText}
    (h : List.Forall₂ (fun name one => load name = .ok one) names loaded) :
    package ∈ loaded.reduceOption ↔ ∃ name ∈ names, load name = .ok (some package) := by
  induction h with
  | nil => simp
  | @cons name one names loaded hload _ ih =>
    rw [List.reduceOption_mem_iff, List.mem_cons, ← List.reduceOption_mem_iff, ih]
    simp [hload, eq_comm]

end Entries

/-! ## Names of units -/

theorem UnitName.encode_inj {a b : UnitName} :
    Text.Utf8.encode a.text = Text.Utf8.encode b.text ↔ a = b := by
  constructor
  · intro h
    cases a
    cases b
    cases Text.Utf8.encode_injective h
    rfl
  · rintro rfl
    rfl

/-- A path gives a name to a unit if the part that says it is the UTF-8 of the name. -/
theorem Path.unitName_eq_ok_iff (path : Path) {bytes : Option (List UInt8)} {name : UnitName} :
    path.unitName bytes = .ok name ↔ bytes = some (Text.Utf8.encode name.text) := by
  rw [unitName]
  cases bytes with
  | none => simp
  | some bytes =>
    rw [Option.bind_some, Option.some.injEq]
    cases hdecode : Text.Utf8.decode? bytes with
    | none =>
      refine iff_of_false (fun h => by cases h) ?_
      rintro rfl
      rw [Text.Utf8.decode?_encode] at hdecode
      cases hdecode
    | some text =>
      have hencode : bytes = Text.Utf8.encode name.text ↔ name.text = text := by
        rw [← Text.Utf8.decode?_eq_some_iff.1 hdecode]
        exact Text.Utf8.encode_injective.eq_iff.trans eq_comm
      rw [hencode, ← UnitName.ofText_eq_ok_iff]
      cases hname : UnitName.ofText text <;> simp [hname]

namespace FileSystem

variable {files : FileSystem} {options : LoadOptions} {path root : Path}

/-! ## One entry -/

/-- What a source that was read is: at its path, called after it, and with the file's contents. -/
theorem readSource_eq_ok_iff {source : SourceUnit SourceText} :
    files.readSource options path = .ok source
      ↔ source.path = path ∧ path.stem? = some (Text.Utf8.encode source.name.text)
        ∧ files.readContents options path = .ok source.model := by
  obtain ⟨at_, name, model⟩ := source
  rw [← Path.unitName_eq_ok_iff path, readSource]
  cases path.unitName path.stem? with
  | error => simp
  | ok called =>
    rw [map_eq_ok_iff]
    constructor
    · rintro ⟨contents, hcontents, h⟩
      cases h
      exact ⟨rfl, rfl, hcontents⟩
    · rintro ⟨rfl, hname, hcontents⟩
      cases hname
      exact ⟨model, hcontents, rfl⟩

theorem loadEntry_of_isDirectory (h : files.isDirectory path = true) :
    files.loadEntry options path = (files.loadModule options path).map (Option.map .directory) := by
  rw [loadEntry, if_pos h]

/-- What a file holds: a source if it has the extension, and otherwise nothing. -/
theorem loadEntry_of_file (h : files.isDirectory path = false) :
    files.loadEntry options path
      = if path.hasExtension options.extension then
          (files.readSource options path).map fun source => some (.file source)
        else .ok none := by
  rw [loadEntry, if_neg (by rw [h]; decide), loadSource]
  split
  · cases files.readSource options path <;> rfl
  · rfl

/-! ## One directory -/

/-- A directory's entries are loaded as any entry is. -/
theorem loadModule_eq :
    files.loadModule options path
      = (path.unitName path.fileName?).bind fun name =>
        (files.visibleEntries path).bind fun names =>
          (addEntries (fun name => files.loadEntry options (path.join name)) Module.addPackage
            (Module.empty path name) names).map
              fun module => if module.isEmpty then none else some module := by
  rw [loadModule]
  cases path.unitName path.fileName? with
  | error => rfl
  | ok name =>
    cases files.visibleEntries path with
    | error => rfl
    | ok names =>
      -- the loop over the entries loads each as an entry
      have hload : (fun name => if _h : files.isDirectory (path.join name) = true then
            (files.loadModule options (path.join name)).map (Option.map Package.directory)
          else (files.loadSource options (path.join name)).map (Option.map Package.file))
          = fun name => files.loadEntry options (path.join name) := by
        funext name
        rw [loadEntry]
        split <;> rfl
      simp only [hload, Except.bind]
      cases addEntries (fun name => files.loadEntry options (path.join name)) Module.addPackage
        (Module.empty path name) names <;> rfl

/-- When a directory is loaded, and to what: each of its entries can be, what they hold has no two
sources and no two submodules of one name, and a module that is left empty is left out. -/
theorem loadModule_eq_ok_iff {found : Option (Module SourceText)} :
    files.loadModule options path = .ok found
      ↔ ∃ name names loaded module, path.fileName? = some (Text.Utf8.encode name.text)
        ∧ files.visibleEntries path = .ok names
        ∧ List.Forall₂ (fun name one => files.loadEntry options (path.join name) = .ok one)
          names loaded
        ∧ loaded.reduceOption.foldlM Module.addPackage (Module.empty path name) = .ok module
        ∧ found = if module.isEmpty then none else some module := by
  rw [loadModule_eq]
  simp only [bind_eq_ok_iff, map_eq_ok_iff, addEntries_eq_ok_iff, Path.unitName_eq_ok_iff]
  constructor
  · rintro ⟨name, hname, names, hnames, module, ⟨loaded, hloaded, hmodule⟩, rfl⟩
    exact ⟨name, names, loaded, module, hname, hnames, hloaded, hmodule, rfl⟩
  · rintro ⟨name, names, loaded, module, hname, hnames, hloaded, hmodule, rfl⟩
    exact ⟨name, hname, names, hnames, module, ⟨loaded, hloaded, hmodule⟩, rfl⟩

/-- The entries of the root are loaded and put together. -/
theorem load_of_isDirectory (h : files.isDirectory root = true) :
    files.load options root
      = (files.visibleEntries root).bind
        (addEntries (fun name => files.loadEntry options (root.join name)) Workspace.addPackage
          (Workspace.empty root)) := by
  rw [load, if_pos h]
  cases files.visibleEntries root <;> rfl

/-- When a workspace is loaded, and to what: each entry of its root can be, and no two of them hold
packages of one name. -/
theorem load_eq_ok_iff {workspace : Workspace SourceText} :
    files.load options root = .ok workspace
      ↔ files.isDirectory root = true ∧ ∃ names loaded, files.visibleEntries root = .ok names
        ∧ List.Forall₂ (fun name one => files.loadEntry options (root.join name) = .ok one)
          names loaded
        ∧ loaded.reduceOption.foldlM Workspace.addPackage (Workspace.empty root)
          = .ok workspace := by
  rw [load]
  split
  next hroot =>
    cases hnames : files.visibleEntries root with
    | error => simp
    | ok names =>
      simp only [addEntries_eq_ok_iff, hroot, true_and, Except.ok.injEq]
      constructor
      · rintro ⟨loaded, hloaded, hworkspace⟩
        exact ⟨names, loaded, rfl, hloaded, hworkspace⟩
      · rintro ⟨names, loaded, rfl, hloaded, hworkspace⟩
        exact ⟨loaded, hloaded, hworkspace⟩
  next hroot => simp [hroot]

/-! ## All directories -/

/-- What holds of a path whenever it holds of the entries, should the path be a directory's, holds
of every path. -/
theorem loading (files : FileSystem) {motive : Path → Prop}
    (step : ∀ path, (files.isDirectory path = true → ∀ name, motive (path.join name)) →
      motive path) (path : Path) : motive path := by
  refine step path fun hpath name => ?_
  have hlimit := length_lt_of_isDirectory hpath
  have hlength := path.length_lt_join name
  exact loading files step (path.join name)
  termination_by Path.lengthLimit - path.bytes.length

/-- The names that loading comes by on its way down from a path. -/
inductive Reaches (files : FileSystem) : Path → List FileName → Prop
  | here (path : Path) : Reaches files path []
  | enter {path : Path} {listed : List FileName} {name : FileName} {names : List FileName}
      (hpath : files.isDirectory path = true) (hlisted : files.visibleEntries path = .ok listed)
      (hname : name ∈ listed) (hnames : Reaches files (path.join name) names) :
      Reaches files path (name :: names)

theorem Reaches.concat {listed : List FileName} {name : FileName} {names : List FileName}
    (h : files.Reaches path names) (hpath : files.isDirectory (path.joinAll names) = true)
    (hlisted : files.visibleEntries (path.joinAll names) = .ok listed) (hname : name ∈ listed) :
    files.Reaches path (names ++ [name]) := by
  induction h with
  | here path => exact .enter hpath hlisted hname (.here _)
  | enter hfirst hother hnext _ ih => exact .enter hfirst hother hnext (ih hpath hlisted)

end FileSystem

/-! ## Modules at every depth -/

section Holds

universe u

variable {α : Type u}

/-- A module that is another one or, however deep, in it. -/
inductive Module.Within (inner : Module α) : Module α → Prop
  | refl : Within inner inner
  | submodule {outer next : Module α} {key : UnitName} (hnext : (key, next) ∈ outer.submodules)
      (hinner : Within inner next) : Within inner outer

/-- A module that is a package of a workspace or, however deep, in one. -/
def Workspace.Holds (workspace : Workspace α) (module : Module α) : Prop :=
  ∃ key package, (key, Package.directory package) ∈ workspace.packages ∧ module.Within package

/-- What holds of the modules that are packages, and of every submodule of a module that it holds
of, holds of the modules at every depth. -/
theorem Workspace.holds_induction {workspace : Workspace α} {motive : Module α → Prop}
    (package : ∀ key module, (key, .directory module) ∈ workspace.packages → motive module)
    (submodule : ∀ outer key next, motive outer → (key, next) ∈ outer.submodules → motive next)
    {module : Module α} (h : workspace.Holds module) : motive module := by
  obtain ⟨key, outer, houter, hwithin⟩ := h
  have hmotive := package key outer houter
  clear houter
  induction hwithin with
  | refl => exact hmotive
  | submodule hnext _ ih => exact ih (submodule _ _ _ hmotive hnext)

end Holds

namespace FileSystem

variable {files : FileSystem} {options : LoadOptions} {path root : Path}
  {module : Module SourceText} {workspace : Workspace SourceText}

/-- A directory whose loading leaves a module: where it is, what it is called and what it is made
of. -/
theorem exists_of_loadModule (h : files.loadModule options path = .ok (some module)) :
    ∃ names loaded, files.visibleEntries path = .ok names
      ∧ List.Forall₂ (fun name one => files.loadEntry options (path.join name) = .ok one)
        names loaded
      ∧ module.MadeOf path module.name loaded.reduceOption
      ∧ path.fileName? = some (Text.Utf8.encode module.name.text)
      ∧ module.isEmpty = false := by
  obtain ⟨name, names, loaded, made, hname, hnames, hloaded, hmade, hmodule⟩ :=
    loadModule_eq_ok_iff.1 h
  have hof := Module.madeOf_of_addPackages hmade
  split at hmodule
  · cases hmodule
  next hempty =>
    cases hmodule
    obtain rfl := hof.name_eq
    exact ⟨names, loaded, hnames, hloaded, hof, hname, Bool.eq_false_iff.2 hempty⟩

/-- Where a directory is loaded, all its entries are. -/
theorem exists_loadEntry_of_mem {found : Option (Package SourceText)} {listed : List FileName}
    {name : FileName} (hpath : files.isDirectory path = true)
    (h : files.loadEntry options path = .ok found)
    (hlisted : files.visibleEntries path = .ok listed) (hname : name ∈ listed) :
    ∃ inner, files.loadEntry options (path.join name) = .ok inner := by
  rw [loadEntry_of_isDirectory hpath] at h
  obtain ⟨made, hmade, -⟩ := map_eq_ok_iff.1 h
  obtain ⟨-, others, loaded, -, -, hothers, hloaded, -⟩ := loadModule_eq_ok_iff.1 hmade
  rw [hlisted, Except.ok.injEq] at hothers
  exact exists_of_mem_left hloaded (hothers ▸ hname)

/-- What loading comes by below an entry that can be loaded, can be loaded. -/
theorem exists_loadEntry_of_reaches {names : List FileName} (hreaches : files.Reaches path names)
    (h : ∃ found, files.loadEntry options path = .ok found) :
    ∃ found, files.loadEntry options (path.joinAll names) = .ok found := by
  induction hreaches with
  | here path => exact h
  | enter hpath hlisted hname _ ih =>
    obtain ⟨found, hfound⟩ := h
    exact ih (exists_loadEntry_of_mem hpath hfound hlisted hname)

/-- And so below a root that can be loaded. -/
theorem exists_loadEntry_of_load {names : List FileName}
    (hload : files.load options root = .ok workspace) (hnames : names ≠ [])
    (hreaches : files.Reaches root names) :
    ∃ found, files.loadEntry options (root.joinAll names) = .ok found := by
  obtain ⟨-, listed, loaded, hlisted, hloaded, -⟩ := load_eq_ok_iff.1 hload
  cases hreaches with
  | here => exact absurd rfl hnames
  | enter _ hother hentry hmore =>
    rw [hlisted, Except.ok.injEq] at hother
    rw [Path.joinAll_cons]
    exact exists_loadEntry_of_reaches hmore (exists_of_mem_left hloaded (hother ▸ hentry))

/-- A module that an entry holds is what the entry's directory is loaded to. -/
theorem loadModule_of_loadEntry
    (h : files.loadEntry options path = .ok (some (.directory module))) :
    files.isDirectory path = true ∧ files.loadModule options path = .ok (some module) := by
  cases hpath : files.isDirectory path with
  | true =>
    rw [loadEntry_of_isDirectory hpath] at h
    obtain ⟨found, hfound, hsome⟩ := map_eq_ok_iff.1 h
    cases found with
    | none => cases hsome
    | some => cases hsome; exact ⟨rfl, hfound⟩
  | false =>
    rw [loadEntry_of_file hpath] at h
    split at h
    · obtain ⟨source, -, hsome⟩ := map_eq_ok_iff.1 h
      cases hsome
    · cases h

/-- A source that an entry holds is what the entry's file is read to. -/
theorem readSource_of_loadEntry {source : SourceUnit SourceText}
    (h : files.loadEntry options path = .ok (some (.file source))) :
    files.isDirectory path = false ∧ path.hasExtension options.extension = true
      ∧ files.readSource options path = .ok source := by
  cases hpath : files.isDirectory path with
  | true =>
    rw [loadEntry_of_isDirectory hpath] at h
    obtain ⟨found, -, hsome⟩ := map_eq_ok_iff.1 h
    cases found <;> cases hsome
  | false =>
    rw [loadEntry_of_file hpath] at h
    split at h
    next hextension =>
      obtain ⟨read, hread, hsome⟩ := map_eq_ok_iff.1 h
      cases hsome
      exact ⟨rfl, hextension, hread⟩
    · cases h

/-- A module is at the path that it was loaded from. -/
theorem path_of_loadModule (h : files.loadModule options path = .ok (some module)) :
    module.path = path := by
  obtain ⟨_, _, -, -, hof, -⟩ := exists_of_loadModule h
  exact hof.path_eq

/-- A submodule of a module is what an entry of the module's directory holds. -/
theorem exists_of_mem_submodules {key : UnitName} {next : Module SourceText}
    (h : files.loadModule options path = .ok (some module))
    (hnext : (key, next) ∈ module.submodules) :
    ∃ listed name, files.visibleEntries path = .ok listed ∧ name ∈ listed
      ∧ files.loadEntry options (path.join name) = .ok (some (.directory next)) := by
  obtain ⟨listed, loaded, hlisted, hloaded, hof, -⟩ := exists_of_loadModule h
  obtain ⟨inner, hmem, hpair⟩ := List.mem_map.1 (hof.submodules_perm.mem_iff.1 hnext)
  cases hpair
  obtain ⟨package, hpackage, hinner⟩ := List.mem_filterMap.1 hmem
  obtain rfl := Package.module?_eq_some_iff.1 hinner
  obtain ⟨name, hname, hentry⟩ := (mem_reduceOption_iff hloaded).1 hpackage
  exact ⟨listed, name, hlisted, hname, hentry⟩

/-- Every module of a loaded workspace is what its own path is loaded to, and its path is that of a
directory which loading comes by. -/
theorem exists_of_holds (h : files.load options root = .ok workspace)
    (hmodule : workspace.Holds module) :
    ∃ names, names ≠ [] ∧ files.Reaches root names ∧ files.isDirectory (root.joinAll names) = true
      ∧ files.loadModule options (root.joinAll names) = .ok (some module) := by
  refine Workspace.holds_induction
    (motive := fun module => ∃ names, names ≠ [] ∧ files.Reaches root names
      ∧ files.isDirectory (root.joinAll names) = true
      ∧ files.loadModule options (root.joinAll names) = .ok (some module))
    (fun key module hpackage => ?_) (fun outer key next ih hnext => ?_) hmodule
  · -- a package that is a module comes of a directory in the root
    obtain ⟨hroot, listed, loaded, hlisted, hloaded, hadded⟩ := load_eq_ok_iff.1 h
    obtain ⟨-, hperm, -⟩ := Workspace.of_addPackages hadded
    obtain ⟨package, hmem, hpair⟩ := List.mem_map.1 (hperm.mem_iff.1 hpackage)
    cases hpair
    obtain ⟨name, hname, hentry⟩ := (mem_reduceOption_iff hloaded).1 hmem
    obtain ⟨hdirectory, hload⟩ := loadModule_of_loadEntry hentry
    exact ⟨[name], List.cons_ne_nil _ _, .enter hroot hlisted hname (.here _), hdirectory, hload⟩
  · -- a submodule comes of a directory in that of its module
    obtain ⟨names, -, hreaches, hdirectory, hload⟩ := ih
    obtain ⟨listed, name, hlisted, hname, hentry⟩ := exists_of_mem_submodules hload hnext
    obtain ⟨hinner, hloadInner⟩ := loadModule_of_loadEntry hentry
    refine ⟨names ++ [name], by simp, hreaches.concat hdirectory hlisted hname, ?_, ?_⟩
    · rw [Path.joinAll_append]
      exact hinner
    · rw [Path.joinAll_append]
      exact hloadInner

end FileSystem

end Lexis
