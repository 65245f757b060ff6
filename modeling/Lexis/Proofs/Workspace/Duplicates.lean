import Mathlib
import Lexis.Proofs.Workspace.Tree

/-!
# Names that are defined twice

The name of an entry tells what package it holds, so that in one directory only a source and a
directory can define one name: `x.tr` beside `x`. At the root such a clash ends the loading. In a
module it does not, since the module keeps its sources apart from its submodules.

- `FileSystem.Defines`, `FileSystem.Clash`: an entry defines a name, and two entries define one.
- `Package.kinds_of_order`: which packages of one name come before which.
- `FileSystem.clash_of_defines`: only a clash lets two entries define one name.
- `FileSystem.Faultless`: nothing else is wrong with what lies below a root.
- `FileSystem.Faultless.exists_loadEntry`, `FileSystem.faultless_of_entries`: and so every entry can
  be loaded by itself.
- `load_refuses_only_root_clash`: what a clash does at the root and below it.
- `load_keeps_clash_in_module`: a module with one name for a source and for a submodule.
-/

namespace Lexis

/-! ## What the name of an entry tells -/

section Names

universe u

variable {α : Type u} {options : LoadOptions} {a b : Package α}

/-- How an entry is called that holds a package. -/
def Package.entryBytes (options : LoadOptions) : Package α → List UInt8
  | file source =>
    Text.Utf8.encode source.name.text ++ fullStop :: Text.Utf8.encode options.extension
  | directory module => Text.Utf8.encode module.name.text

/-- Of two packages of one name the first, by the names of the entries, is a directory and the
second a source. -/
theorem Package.kinds_of_order (hname : a.name = b.name)
    (horder : List.compareLex compare (a.entryBytes options) (b.entryBytes options) = .lt) :
    ∃ module source, a = .directory module ∧ b = .file source := by
  have hself (bytes : List UInt8) : List.compareLex compare bytes bytes = .eq :=
    Std.ReflCmp.compare_self
  cases a with
  | file source =>
    cases b with
    | file other =>
      have hsame : source.name = other.name := hname
      -- two files of one name have the same entry
      rw [entryBytes, entryBytes, hsame, hself] at horder
      cases horder
    | directory module =>
      have hsame : source.name = module.name := hname
      -- with an extension behind it the name of the file comes later
      rw [entryBytes, entryBytes, hsame, ← List.append_nil (Text.Utf8.encode module.name.text),
        List.append_assoc, compareLex_append_left] at horder
      cases horder
  | directory module =>
    cases b with
    | file source => exact ⟨module, source, rfl, rfl⟩
    | directory other =>
      have hsame : module.name = other.name := hname
      -- and so have two directories
      rw [entryBytes, entryBytes, hsame, hself] at horder
      cases horder

/-- Packages by ascending names of their entries: no two sources and no two modules among them have
one name. -/
theorem Package.nodup_of_pairwise {packages : List (Package α)}
    (h : packages.Pairwise fun a b =>
      List.compareLex compare (a.entryBytes options) (b.entryBytes options) = .lt) :
    ((packages.filterMap source?).map SourceUnit.name).Nodup
      ∧ ((packages.filterMap module?).map Module.name).Nodup := by
  constructor
  · refine List.pairwise_map.2 (List.pairwise_filterMap.2 (h.imp fun {a b} hlt => ?_))
    intro source hsource other hother hname
    obtain rfl := source?_eq_some_iff.1 hsource
    obtain rfl := source?_eq_some_iff.1 hother
    have hsame : (Package.file source).name = (Package.file other).name := hname
    obtain ⟨_, _, hkind, -⟩ := kinds_of_order hsame hlt
    cases hkind
  · refine List.pairwise_map.2 (List.pairwise_filterMap.2 (h.imp fun {a b} hlt => ?_))
    intro module hmodule other hother hname
    obtain rfl := module?_eq_some_iff.1 hmodule
    obtain rfl := module?_eq_some_iff.1 hother
    have hsame : (Package.directory module).name = (Package.directory other).name := hname
    obtain ⟨_, _, -, hkind⟩ := kinds_of_order hsame hlt
    cases hkind

end Names

namespace FileSystem

variable {files : FileSystem} {options : LoadOptions} {path root : Path} {listed : List FileName}
  {entry directory file : FileName} {name : UnitName} {names : List FileName}
  {package : Package SourceText} {found : Option (Package SourceText)}
  {loaded : List (Option (Package SourceText))}

/-- The name of an entry is that of the package that it holds, with the extension of a source. -/
theorem bytes_of_loadEntry (h : files.loadEntry options (path.join entry) = .ok (some package)) :
    entry.bytes = package.entryBytes options := by
  cases package with
  | file source =>
    obtain ⟨-, hextension, hread⟩ := readSource_of_loadEntry h
    exact bytes_of_readSource hextension hread
  | directory module =>
    obtain ⟨-, hload⟩ := loadModule_of_loadEntry h
    obtain ⟨_, _, -, -, -, hname, -⟩ := exists_of_loadModule hload
    rw [Path.fileName?_join] at hname
    exact Option.some.inj hname

theorem path_of_loadEntry (h : files.loadEntry options path = .ok (some package)) :
    package.path = path := by
  cases package with
  | file source => exact (readSource_eq_ok_iff.1 (readSource_of_loadEntry h).2.2).1
  | directory module => exact path_of_loadModule (loadModule_of_loadEntry h).2

/-- The packages that a directory's entries hold are in the order of the entries. -/
theorem pairwise_loaded (hascending : listed.Pairwise fun a b => a.order b = .lt)
    (hloaded : List.Forall₂ (fun entry one => files.loadEntry options (path.join entry) = .ok one)
      listed loaded) :
    loaded.reduceOption.Pairwise fun a b =>
      List.compareLex compare (a.entryBytes options) (b.entryBytes options) = .lt := by
  induction hloaded with
  | nil => exact .nil
  | @cons entry one listed loaded hone hrest ih =>
    obtain ⟨hfirst, hlater⟩ := List.pairwise_cons.1 hascending
    cases one with
    | none => exact ih hlater
    | some package =>
      refine List.pairwise_cons.2 ⟨fun other hother => ?_, ih hlater⟩
      obtain ⟨later, hmem, hload⟩ := (mem_reduceOption_iff hrest).1 hother
      rw [← bytes_of_loadEntry hone, ← bytes_of_loadEntry hload]
      exact hfirst later hmem

/-! ## Clashes -/

/-- An entry of a directory defines a name: it is loaded to a package that is called so. -/
def Defines (files : FileSystem) (options : LoadOptions) (path : Path) (entry : FileName)
    (name : UnitName) : Prop :=
  (∃ listed, files.visibleEntries path = .ok listed ∧ entry ∈ listed)
    ∧ ∃ package, files.loadEntry options (path.join entry) = .ok (some package)
      ∧ package.name = name

/-- A source stands beside a directory, both called after one name, and there is a source in the
directory, however deep. -/
structure Clash (files : FileSystem) (options : LoadOptions) (path : Path) (name : UnitName)
    (directory file : FileName) : Prop where
  directory_bytes : directory.bytes = Text.Utf8.encode name.text
  file_bytes :
    file.bytes = Text.Utf8.encode name.text ++ fullStop :: Text.Utf8.encode options.extension
  finds_file : files.Finds options path [file]
  finds_inner : ∃ next names, files.Finds options path (directory :: next :: names)

/-- The entries that clash are listed. -/
theorem Clash.mem_listed (h : files.Clash options path name directory file)
    (hlisted : files.visibleEntries path = .ok listed) : directory ∈ listed ∧ file ∈ listed := by
  obtain ⟨hfile, -⟩ := h.finds_file
  obtain ⟨_, _, hdirectory, -⟩ := h.finds_inner
  have hpath : files.isDirectory path = true := by
    cases hfile
    assumption
  exact ⟨((reaches_directory_iff hpath hlisted).1 hdirectory).1,
    ((reaches_directory_iff hpath hlisted).1 hfile).1⟩

/-- The file of a clash is loaded to a source of the name. -/
theorem Clash.exists_source (h : files.Clash options path name directory file)
    (hload : files.loadEntry options (path.join file) = .ok found) :
    ∃ source, found = some (.file source) ∧ source.name = name := by
  obtain ⟨-, hfile, hextension⟩ := h.finds_file
  rw [Path.joinAll_cons, Path.joinAll_nil] at hfile hextension
  rw [loadEntry_of_file hfile, if_pos hextension] at hload
  obtain ⟨source, hsource, rfl⟩ := map_eq_ok_iff.1 hload
  refine ⟨source, rfl, UnitName.encode_inj.1 ?_⟩
  exact List.append_cancel_right ((bytes_of_readSource hextension hsource).symm.trans h.file_bytes)

/-- The directory of a clash is loaded to a module of the name. -/
theorem Clash.exists_module (h : files.Clash options path name directory file)
    (honce : files.ListsOnce path)
    (hload : files.loadEntry options (path.join directory) = .ok found) :
    ∃ module, found = some (.directory module) ∧ module.name = name := by
  obtain ⟨next, names, hreaches, hend⟩ := h.finds_inner
  cases hreaches with
  | enter hpath hlisted hmem hnames =>
    obtain ⟨ways, sources, hsources, hperm⟩ :=
      exists_sources_of_loadEntry _ (honce.join hpath hlisted hmem) hload
    have hway := (hsources.mem_iff (next :: names)).2 ⟨hnames, hend⟩
    cases hnames with
    | enter hdirectory =>
      cases found with
      | none =>
        -- The source in the directory would be lost.
        obtain rfl := List.nil_perm.1 hperm
        rw [List.forall₂_nil_right_iff.1 hsources.read] at hway
        cases hway
      | some package =>
        cases package with
        | file source =>
          rw [(readSource_of_loadEntry hload).1] at hdirectory
          cases hdirectory
        | directory module =>
          refine ⟨module, rfl, UnitName.encode_inj.1 ?_⟩
          exact (bytes_of_loadEntry hload).symm.trans h.directory_bytes

/-- Among what a directory's entries hold are the module and the source of a clash. -/
theorem Clash.exists_packages (h : files.Clash options path name directory file)
    (honce : files.ListsOnce path) (hlisted : files.visibleEntries path = .ok listed)
    (hloaded : List.Forall₂ (fun entry one => files.loadEntry options (path.join entry) = .ok one)
      listed loaded) :
    (∃ module, .directory module ∈ loaded.reduceOption ∧ module.name = name)
      ∧ ∃ source, .file source ∈ loaded.reduceOption ∧ source.name = name := by
  obtain ⟨hdirectory, hfile⟩ := h.mem_listed hlisted
  obtain ⟨one, hone⟩ := exists_of_mem_left hloaded hdirectory
  obtain ⟨other, hother⟩ := exists_of_mem_left hloaded hfile
  obtain ⟨module, rfl, hmodule⟩ := h.exists_module honce hone
  obtain ⟨source, rfl, hsource⟩ := h.exists_source hother
  exact ⟨⟨module, (mem_reduceOption_iff hloaded).2 ⟨directory, hdirectory, hone⟩, hmodule⟩,
    source, (mem_reduceOption_iff hloaded).2 ⟨file, hfile, hother⟩, hsource⟩

/-- A directory and a file that are loaded to packages of one name clash. -/
theorem clash_of_loads {module : Module SourceText} {source : SourceUnit SourceText}
    (honce : files.ListsOnce path) (hpath : files.isDirectory path = true)
    (hlisted : files.visibleEntries path = .ok listed) (hdirectory : directory ∈ listed)
    (hfile : file ∈ listed)
    (hmodule : files.loadEntry options (path.join directory) = .ok (some (.directory module)))
    (hsource : files.loadEntry options (path.join file) = .ok (some (.file source)))
    (hname : module.name = source.name) :
    files.Clash options path source.name directory file where
  directory_bytes := hname ▸ bytes_of_loadEntry hmodule
  file_bytes := bytes_of_loadEntry hsource
  finds_file := by
    obtain ⟨hnot, hextension, -⟩ := readSource_of_loadEntry hsource
    exact ⟨(reaches_directory_iff hpath hlisted).2 ⟨hfile, .here _⟩, hnot, hextension⟩
  finds_inner := by
    obtain ⟨hinner, hload⟩ := loadModule_of_loadEntry hmodule
    obtain ⟨_, _, hinnerListed, -⟩ := exists_of_loadModule hload
    obtain ⟨ways, sources, hsources, hperm⟩ :=
      exists_sources_of_loadEntry _ (honce.join hpath hlisted hdirectory) hmodule
    -- No module is without a source, and some names lead to it.
    cases ways with
    | nil =>
      obtain rfl := List.forall₂_nil_left_iff.1 hsources.read
      exact absurd hperm.eq_nil (allSources_ne_nil_of_loadModule _ hinner hload)
    | cons names ways =>
      have hfinds := (hsources.mem_iff names).1 List.mem_cons_self
      obtain ⟨next, -, more, rfl, -⟩ := (finds_directory_iff hinner hinnerListed).1 hfinds
      obtain ⟨hreaches, hend⟩ := hfinds
      exact ⟨next, more, .enter hpath hlisted hdirectory hreaches, hend⟩

/-- And if a module and a source of one name are among what a directory's entries hold, there is a
clash where they come from. -/
theorem exists_clash_of_packages {module : Module SourceText} {source : SourceUnit SourceText}
    (honce : files.ListsOnce path) (hpath : files.isDirectory path = true)
    (hlisted : files.visibleEntries path = .ok listed)
    (hloaded : List.Forall₂ (fun entry one => files.loadEntry options (path.join entry) = .ok one)
      listed loaded)
    (hmodule : .directory module ∈ loaded.reduceOption)
    (hsource : .file source ∈ loaded.reduceOption) (hname : module.name = source.name) :
    ∃ directory file, files.Clash options path source.name directory file
      ∧ module.path = path.join directory ∧ source.path = path.join file := by
  obtain ⟨directory, hdirectory, hloadDirectory⟩ := (mem_reduceOption_iff hloaded).1 hmodule
  obtain ⟨file, hfile, hloadFile⟩ := (mem_reduceOption_iff hloaded).1 hsource
  exact ⟨directory, file,
    clash_of_loads honce hpath hlisted hdirectory hfile hloadDirectory hloadFile hname,
    path_of_loadEntry hloadDirectory, path_of_loadEntry hloadFile⟩

/-- Only a clash lets two entries of one directory define one name. -/
theorem clash_of_defines {a b : FileName} (honce : files.ListsOnce path)
    (hpath : files.isDirectory path = true) (ha : files.Defines options path a name)
    (hb : files.Defines options path b name) (hne : a ≠ b) :
    files.Clash options path name a b ∨ files.Clash options path name b a := by
  -- The order of the entries tells which is the directory.
  have hordered {a b : FileName} (ha : files.Defines options path a name)
      (hb : files.Defines options path b name) (hlt : a.order b = .lt) :
      files.Clash options path name a b := by
    obtain ⟨⟨listed, hlisted, hmem⟩, p, hp, rfl⟩ := ha
    obtain ⟨⟨others, hothers, hother⟩, q, hq, hname⟩ := hb
    rw [hlisted, Except.ok.injEq] at hothers
    rw [FileName.order, bytes_of_loadEntry hp, bytes_of_loadEntry hq] at hlt
    obtain ⟨module, source, rfl, rfl⟩ := Package.kinds_of_order hname.symm hlt
    have hsame : module.name = source.name := hname.symm
    have hclash := clash_of_loads honce hpath hlisted hmem (hothers ▸ hother) hp hq hsame
    rw [← hsame] at hclash
    exact hclash
  cases horder : a.order b with
  | lt => exact .inl (hordered ha hb horder)
  | eq => exact absurd (Std.LawfulEqCmp.eq_of_compare horder) hne
  | gt => exact .inr (hordered hb ha (Std.OrientedCmp.lt_of_gt horder))

/-! ## What is loaded where names clash -/

/-- In a loaded root nothing clashes. -/
theorem not_clash_of_load {workspace : Workspace SourceText} (honce : files.ListsOnce root)
    (hload : files.load options root = .ok workspace) :
    ¬ files.Clash options root name directory file := by
  intro hclash
  obtain ⟨-, listed, loaded, hlisted, hloaded, hadded⟩ := load_eq_ok_iff.1 hload
  obtain ⟨⟨module, hmodule, hmoduleName⟩, source, hsource, hsourceName⟩ :=
    hclash.exists_packages honce hlisted hloaded
  -- Both are packages of the workspace, which has one map for all.
  have hnodup : (loaded.reduceOption.map Package.name).Nodup := by
    obtain ⟨-, hperm, hkeys⟩ := Workspace.of_addPackages hadded
    have hnames := hperm.map Prod.fst
    rw [List.map_map] at hnames
    exact hnames.nodup_iff.1 hkeys
  have hsame := List.inj_on_of_nodup_map hnodup hmodule hsource
    (hmoduleName.trans hsourceName.symm)
  cases hsame

/-- A name is that of a source and of a submodule of a module exactly if there is a clash in the
module's directory. -/
theorem mem_keys_iff_clash {module : Module SourceText} (honce : files.ListsOnce path)
    (hpath : files.isDirectory path = true)
    (hload : files.loadModule options path = .ok (some module)) :
    name ∈ module.sources.map Prod.fst ∧ name ∈ module.submodules.map Prod.fst
      ↔ ∃ directory file, files.Clash options path name directory file := by
  obtain ⟨listed, loaded, hlisted, hloaded, hof, -⟩ := exists_of_loadModule hload
  have hsources : name ∈ module.sources.map Prod.fst
      ↔ ∃ source, .file source ∈ loaded.reduceOption ∧ source.name = name := by
    rw [(hof.sources_perm.map Prod.fst).mem_iff]
    simp [Package.source?_eq_some_iff]
  have hsubmodules : name ∈ module.submodules.map Prod.fst
      ↔ ∃ inner, .directory inner ∈ loaded.reduceOption ∧ inner.name = name := by
    rw [(hof.submodules_perm.map Prod.fst).mem_iff]
    simp [Package.module?_eq_some_iff]
  rw [hsources, hsubmodules]
  constructor
  · rintro ⟨⟨source, hsource, rfl⟩, inner, hinner, hname⟩
    obtain ⟨directory, file, hclash, -⟩ :=
      exists_clash_of_packages honce hpath hlisted hloaded hinner hsource hname
    exact ⟨directory, file, hclash⟩
  · rintro ⟨directory, file, hclash⟩
    obtain ⟨hmodule, hsource⟩ := hclash.exists_packages honce hlisted hloaded
    exact ⟨hsource, hmodule⟩

/-- Where every entry of the root can be loaded, the root is, unless there is a clash in it: then
that is the error. -/
theorem load_of_loaded (honce : files.ListsOnce root) (hroot : files.isDirectory root = true)
    (hlisted : files.visibleEntries root = .ok listed)
    (hloaded : List.Forall₂ (fun entry one => files.loadEntry options (root.join entry) = .ok one)
      listed loaded) :
    (∃ workspace, files.load options root = .ok workspace)
      ∨ ∃ name directory file, files.Clash options root name directory file
        ∧ files.load options root
          = .error (.duplicateName name (root.join directory) (root.join file)) := by
  have hload : files.load options root
      = (NameMap.insertAll Package.path Package.name [] loaded.reduceOption).map (⟨root, ·⟩) := by
    rw [load, if_pos hroot, hlisted]
    exact (addEntries_of_loads hloaded).trans (Workspace.addPackages_eq _ _)
  cases hadded : NameMap.insertAll Package.path Package.name [] loaded.reduceOption with
  | ok packages => exact .inl ⟨⟨root, packages⟩, by rw [hload, hadded]; rfl⟩
  | error error =>
    obtain ⟨front, second, back, first, hpackages, hfirst, rfl⟩ :=
      NameMap.exists_clash_of_insertAll hadded
    obtain ⟨earlier, hearlier, hpair⟩ := List.mem_map.1 hfirst
    rw [Prod.mk.injEq] at hpair
    obtain ⟨hname, rfl⟩ := hpair
    -- the package with the name was added before
    have horder := pairwise_loaded (honce.ascending hroot hlisted) hloaded
    rw [hpackages] at horder
    obtain ⟨module, source, rfl, rfl⟩ := Package.kinds_of_order hname
      ((List.pairwise_append.1 horder).2.2 _ hearlier _ List.mem_cons_self)
    have hmodule : Package.directory module ∈ loaded.reduceOption := by
      rw [hpackages]
      exact List.mem_append_left _ hearlier
    have hsource : Package.file source ∈ loaded.reduceOption := by
      rw [hpackages]
      exact List.mem_append_right _ List.mem_cons_self
    -- the entries that the two packages come of
    obtain ⟨directory, file, hclash, hmodulePath, hsourcePath⟩ :=
      exists_clash_of_packages honce hroot hlisted hloaded hmodule hsource hname
    refine .inr ⟨source.name, directory, file, hclash, ?_⟩
    rw [hload, hadded, ← hmodulePath, ← hsourcePath]
    rfl

/-! ## Roots without other faults -/

/-- Nothing is wrong with what lies below a root, but that names may be defined twice: directories
are called as units are, and sources can be read. -/
structure Faultless (files : FileSystem) (options : LoadOptions) (root : Path) : Prop where
  named : ∀ names, names ≠ [] → files.Reaches root names →
    files.isDirectory (root.joinAll names) = true →
    ∃ unit : UnitName, (root.joinAll names).fileName? = some (Text.Utf8.encode unit.text)
  read : ∀ names, files.Finds options root names →
    ∃ source, files.readSource options (root.joinAll names) = .ok source

/-- Every directory can be listed, and lists no name twice. -/
def Lists (files : FileSystem) : Prop :=
  ∀ path, files.isDirectory path = true →
    ∃ listed, files.visibleEntries path = .ok listed ∧ listed.Nodup

theorem Lists.listsOnce (h : files.Lists) (path : Path) : files.ListsOnce path := by
  intro names listed _ hdirectory hlisted
  obtain ⟨others, hothers, hnodup⟩ := h _ hdirectory
  rw [hlisted, Except.ok.injEq] at hothers
  exact hothers ▸ hnodup

/-- What the entries of a directory hold is a module, if each can be loaded. -/
theorem exists_module_of_entries (unit : UnitName)
    (hascending : listed.Pairwise fun a b => a.order b = .lt)
    (hentries : ∀ entry ∈ listed, ∃ one, files.loadEntry options (path.join entry) = .ok one) :
    ∃ module, addEntries (fun name => files.loadEntry options (path.join name)) Module.addPackage
      (Module.empty path unit) listed = .ok module := by
  obtain ⟨loaded, hloaded⟩ := exists_loaded hentries
  obtain ⟨module, hmodule⟩ := Module.exists_addPackages_iff.2
    (Package.nodup_of_pairwise (pairwise_loaded hascending hloaded))
  exact ⟨module, (addEntries_of_loads hloaded).trans hmodule⟩

/-- A directory that is called as a unit is, and whose entries can be loaded, can be loaded: no
clash in it is an error. -/
theorem exists_loadModule (honce : files.ListsOnce path) (hpath : files.isDirectory path = true)
    (hname : path.fileName? = some (Text.Utf8.encode name.text))
    (hlisted : files.visibleEntries path = .ok listed)
    (hentries : ∀ entry ∈ listed, ∃ one, files.loadEntry options (path.join entry) = .ok one) :
    ∃ found, files.loadModule options path = .ok found := by
  obtain ⟨module, hmodule⟩ :=
    exists_module_of_entries name (honce.ascending hpath hlisted) hentries
  obtain ⟨loaded, hloaded, hadded⟩ := addEntries_eq_ok_iff.1 hmodule
  exact ⟨_, loadModule_eq_ok_iff.2
    ⟨name, listed, loaded, module, hname, hlisted, hloaded, hadded, rfl⟩⟩

/-- Below a root without other faults every entry can be loaded. -/
theorem Faultless.exists_loadEntry (h : files.Faultless options root) (hlists : files.Lists)
    (path : Path) (hnames : names ≠ []) (hreaches : files.Reaches root names)
    (hpath : root.joinAll names = path) : ∃ found, files.loadEntry options path = .ok found := by
  induction path using loading files generalizing names with
  | step path ih =>
    subst hpath
    cases hdirectory : files.isDirectory (root.joinAll names) with
    -- a file is read, or it is left out for its extension
    | false =>
      rw [loadEntry_of_file hdirectory]
      split
      next hextension =>
        obtain ⟨source, hsource⟩ := h.read names ⟨hreaches, hdirectory, hextension⟩
        exact ⟨_, map_eq_ok_iff.2 ⟨source, hsource, rfl⟩⟩
      · exact ⟨none, rfl⟩
    -- a directory has a name, and by induction all its entries can be loaded
    | true =>
      obtain ⟨unit, hunit⟩ := h.named names hnames hreaches hdirectory
      obtain ⟨listed, hlisted, -⟩ := hlists _ hdirectory
      have hentries (entry : FileName) (hentry : entry ∈ listed) :
          ∃ one, files.loadEntry options ((root.joinAll names).join entry) = .ok one := by
        have hlast : names ++ [entry] ≠ [] := by simp
        exact ih hdirectory entry hlast (hreaches.concat hdirectory hlisted hentry)
          (root.joinAll_append names [entry])
      obtain ⟨found, hfound⟩ :=
        exists_loadModule (hlists.listsOnce _) hdirectory hunit hlisted hentries
      rw [loadEntry_of_isDirectory hdirectory]
      exact ⟨_, map_eq_ok_iff.2 ⟨found, hfound, rfl⟩⟩

/-- And a root is without other faults if every entry of it can be loaded. -/
theorem faultless_of_entries (hroot : files.isDirectory root = true)
    (hlisted : files.visibleEntries root = .ok listed)
    (hentries : ∀ entry ∈ listed, ∃ found, files.loadEntry options (root.join entry) = .ok found) :
    files.Faultless options root := by
  have hbelow (names : List FileName) (hnames : names ≠ []) (hreaches : files.Reaches root names) :
      ∃ found, files.loadEntry options (root.joinAll names) = .ok found := by
    cases names with
    | nil => exact absurd rfl hnames
    | cons entry names =>
      obtain ⟨hentry, hmore⟩ := (reaches_directory_iff hroot hlisted).1 hreaches
      rw [Path.joinAll_cons]
      exact exists_loadEntry_of_reaches hmore (hentries entry hentry)
  constructor
  · -- a directory that was loaded has a name
    intro names hnames hreaches hdirectory
    obtain ⟨found, hfound⟩ := hbelow names hnames hreaches
    rw [loadEntry_of_isDirectory hdirectory] at hfound
    obtain ⟨made, hmade, -⟩ := map_eq_ok_iff.1 hfound
    obtain ⟨unit, _, _, _, hname, -⟩ := loadModule_eq_ok_iff.1 hmade
    exact ⟨unit, hname⟩
  · -- a file that was loaded is a source
    rintro names ⟨hreaches, hfile, hextension⟩
    have hnames : names ≠ [] := by
      rintro rfl
      rw [Path.joinAll_nil, hroot] at hfile
      cases hfile
    obtain ⟨found, hfound⟩ := hbelow names hnames hreaches
    rw [loadEntry_of_file hfile, if_pos hextension] at hfound
    obtain ⟨source, hsource, -⟩ := map_eq_ok_iff.1 hfound
    exact ⟨source, hsource⟩

end FileSystem

/-- Where no directory has two entries of one name, none lists a name twice. -/
theorem Place.Distinct.lists {place : Place} (h : place.Distinct) : place.fileSystem.Lists := by
  intro path hpath
  rw [FileSystem.isDirectory, Bool.and_eq_true, Option.isNone_iff_eq_none] at hpath
  obtain ⟨hfault, hleads⟩ := hpath
  rw [FileSystem.visibleEntries, FileSystem.entries, hfault]
  rw [Place.fileSystem] at hleads ⊢
  dsimp only at hleads ⊢
  split at hleads
  next found hlookup =>
    rw [hlookup]
    refine ⟨_, rfl, List.Nodup.filter _ ?_⟩
    exact (List.mergeSort_perm _ _).nodup_iff.2 (h.of_lookup hlookup).tree.nodup
  · cases hleads

/-! ## A clash -/

namespace ClashTree

open LibraryTree

def lib : FileName := .ofText ['l', 'i', 'b'] (by decide)

def directory : FileName := .ofText ['x'] (by decide)

def inner : FileName := .ofText ['y', '.', 't', 'r'] (by decide)

/-- The source `x.tr` beside the directory `x`, which holds the source `y.tr`. -/
def entries : Directory := [(x, .file []), (directory, .directory [(inner, .file [])])]

/-- These are what the directory `w` holds. -/
def atRoot : Place := ⟨[(w, .directory entries)], []⟩

/-- These are what the directory `w/lib` holds. -/
def below : Place := ⟨[(w, .directory [(lib, .directory entries)])], []⟩

theorem distinct_atRoot : atRoot.Distinct :=
  List.forall_mem_singleton.2 (FileNode.distinct_of_isPlain (by decide))

theorem distinct_below : below.Distinct :=
  List.forall_mem_singleton.2 (FileNode.distinct_of_isPlain (by decide))

/-- What `w/lib` is loaded to. -/
def libModule : Module SourceText :=
  .mk (root.join lib) ⟨['l', 'i', 'b'], by decide⟩
    [(xName, ⟨root.joinAll [lib, x], xName, ⟨[]⟩⟩)]
    [(xName, .mk (root.joinAll [lib, directory]) xName
      [(⟨['y'], by decide⟩,
        ⟨root.joinAll [lib, directory, inner], ⟨['y'], by decide⟩, ⟨[]⟩⟩)] [])]

/-- What `w` is loaded to when `w/lib` holds the clash. -/
def libWorkspace : Workspace SourceText :=
  ⟨root, [(⟨['l', 'i', 'b'], by decide⟩, .directory libModule)]⟩

theorem load_below : below.fileSystem.load .standard root = .ok libWorkspace := by cbv

theorem holds_libModule : libWorkspace.Holds libModule := ⟨_, libModule, List.mem_cons_self, .refl⟩

theorem load_atRoot : atRoot.fileSystem.load .standard root
    = .error (.duplicateName xName (root.join directory) (root.join x)) := by
  cbv

theorem faultless_atRoot : atRoot.fileSystem.Faultless .standard root := by
  have hlisted : atRoot.fileSystem.visibleEntries root = .ok [directory, x] := by cbv
  refine FileSystem.faultless_of_entries (by cbv) hlisted fun entry hentry => ?_
  rcases List.mem_pair.1 hentry with rfl | rfl
  · exact ⟨some (.directory (.mk (root.join directory) xName [(⟨['y'], by decide⟩,
      ⟨root.joinAll [directory, inner], ⟨['y'], by decide⟩, ⟨[]⟩⟩)] [])), by cbv⟩
  · exact ⟨some (.file ⟨root.join x, xName, ⟨[]⟩⟩), by cbv⟩

end ClashTree

/-! ## Clashes at the root and below -/

/-- **A clash is refused at the root and kept below it.** In a loaded root no two entries define one
name. In the directory of a module two entries do so exactly if they clash, and then the module has
a source and a submodule of that name. Where nothing else is wrong, a root is loaded unless there is
a clash in it, and that is the error. -/
theorem load_refuses_only_root_clash (place : Place) (root : Path) (options : LoadOptions)
    (hdistinct : place.Distinct) :
    (∀ workspace, place.fileSystem.load options root = .ok workspace →
      (∀ name a b, place.fileSystem.Defines options root a name →
        place.fileSystem.Defines options root b name → a = b)
      ∧ (∀ name directory file, ¬ place.fileSystem.Clash options root name directory file)
      ∧ ∀ module, workspace.Holds module →
        (∀ name a b, place.fileSystem.Defines options module.path a name →
          place.fileSystem.Defines options module.path b name → a ≠ b →
          place.fileSystem.Clash options module.path name a b
            ∨ place.fileSystem.Clash options module.path name b a)
        ∧ ∀ name, name ∈ module.sources.map Prod.fst ∧ name ∈ module.submodules.map Prod.fst
          ↔ ∃ directory file, place.fileSystem.Clash options module.path name directory file)
    ∧ (place.fileSystem.isDirectory root = true → place.fileSystem.Faultless options root →
      (∃ workspace, place.fileSystem.load options root = .ok workspace)
      ∨ ∃ name directory file, place.fileSystem.Clash options root name directory file
        ∧ place.fileSystem.load options root
          = .error (.duplicateName name (root.join directory) (root.join file))) := by
  have hlists := hdistinct.lists
  have honce := hlists.listsOnce
  refine ⟨fun workspace hload => ⟨?_, ?_, ?_⟩, fun hroot hfaultless => ?_⟩
  · -- two entries of the root would be two packages of one name
    intro name a b ha hb
    by_contra hne
    have hroot := (FileSystem.load_eq_ok_iff.1 hload).1
    rcases FileSystem.clash_of_defines (honce root) hroot ha hb hne with hclash | hclash
    · exact FileSystem.not_clash_of_load (honce root) hload hclash
    · exact FileSystem.not_clash_of_load (honce root) hload hclash
  · exact fun name directory file => FileSystem.not_clash_of_load (honce root) hload
  · -- in a module sources and submodules have names apart
    intro module hmodule
    obtain ⟨names, -, -, hpath, hmade⟩ := FileSystem.exists_of_holds hload hmodule
    rw [FileSystem.path_of_loadModule hmade]
    exact ⟨fun name a b ha hb hne => FileSystem.clash_of_defines (honce _) hpath ha hb hne,
      fun name => FileSystem.mem_keys_iff_clash (honce _) hpath hmade⟩
  · -- with no other fault all entries are loaded, and only adding them can fail
    obtain ⟨listed, hlisted, -⟩ := hlists root hroot
    have hentries (entry : FileName) (hentry : entry ∈ listed) :
        ∃ one, place.fileSystem.loadEntry options (root.join entry) = .ok one :=
      hfaultless.exists_loadEntry hlists _ (List.cons_ne_nil entry [])
        (.enter hroot hlisted hentry (.here _)) rfl
    obtain ⟨loaded, hloaded⟩ := exists_loaded hentries
    exact FileSystem.load_of_loaded (honce root) hroot hlisted hloaded

open ClashTree LibraryTree in
/-- The clash of `x` with `x.tr` is an error in the root, and none in the directory `lib` below. -/
theorem load_refuses_clash_of_x :
    (∃ name directory file, atRoot.fileSystem.Clash .standard root name directory file)
      ∧ ∃ directory file,
        below.fileSystem.Clash .standard libModule.path xName directory file := by
  obtain ⟨-, hroot⟩ := load_refuses_only_root_clash atRoot root .standard distinct_atRoot
  obtain ⟨hbelow, -⟩ := load_refuses_only_root_clash below root .standard distinct_below
  constructor
  · rcases hroot (by cbv) faultless_atRoot with ⟨workspace, hload⟩ | ⟨name, directory, file, h, -⟩
    · rw [load_atRoot] at hload
      cases hload
    · exact ⟨name, directory, file, h⟩
  · obtain ⟨-, -, hmodules⟩ := hbelow libWorkspace load_below
    obtain ⟨-, hkeys⟩ := hmodules libModule holds_libModule
    exact (hkeys xName).1 ⟨List.mem_cons_self, List.mem_cons_self⟩

open ClashTree LibraryTree in
/-- The directory `w`, whose directory `lib` holds the source `x.tr` beside the directory `x`, is
loaded, to a module with a source and a submodule of one name. -/
theorem load_keeps_clash_in_module :
    ∃ workspace, below.fileSystem.load .standard root = .ok workspace
      ∧ ∃ module, workspace.Holds module
        ∧ ∃ name, name ∈ module.sources.map Prod.fst ∧ name ∈ module.submodules.map Prod.fst :=
  ⟨libWorkspace, load_below, libModule, holds_libModule, xName, List.mem_cons_self,
    List.mem_cons_self⟩

end Lexis
