import Mathlib.Data.List.Pairwise
import Lexis.Proofs.Workspace.Loading

/-!
# The sources of a loaded workspace

Loading finds a source at every path that it comes by, that is no directory's and that has the
extension of sources. It loses none of them, finds none twice, and the sources of the workspace
stand in the order in which it found them: entry by entry, and everything in a directory before the
next entry.

- `FileSystem.Finds`: the names that lead to a source.
- `FileSystem.ListsOnce`: no directory that loading comes by lists a name twice.
- `FileSystem.Sources`: all sources below a path, in the order of the names that lead to them.
- `FileSystem.exists_sources_of_loadEntry`: what an entry holds are the sources below it.
- `FileSystem.exists_sources_of_load`: and so for a workspace.
- `FileSystem.readSource_of_mem_sources`: each source is what its own path is read to.
- `FileSystem.allSources_ne_nil_of_loadModule`: no module is without a source.
-/

namespace Lexis

/-! ## The sources of what is made of packages -/

section Perm

universe u

variable {α : Type u}

theorem Module.allSourcesOf_eq (modules : List (UnitName × Module α)) :
    Module.allSourcesOf modules = modules.flatMap fun entry => entry.2.allSources := by
  induction modules with
  | nil => rfl
  | cons entry modules ih => rw [Module.allSourcesOf, ih]; rfl

theorem Module.allSources_eq (module : Module α) :
    module.allSources
      = module.sources.map Prod.snd
        ++ module.submodules.flatMap fun entry => entry.2.allSources := by
  cases module
  rw [allSources, allSourcesOf_eq]
  rfl

/-- A module that is left out since it is empty has no source. -/
theorem Module.elim_sources (module : Module α) :
    ((if module.isEmpty then none else some module).map Package.directory).elim []
      Package.sources = module.allSources := by
  split
  next hempty =>
    rw [isEmpty, Bool.and_eq_true, List.isEmpty_iff, List.isEmpty_iff] at hempty
    rw [allSources_eq, hempty.1, hempty.2]
    rfl
  · rfl

/-- The sources of packages are those that are packages, and those of the modules that are. -/
theorem Package.flatMap_sources_perm (packages : List (Package α)) :
    (packages.flatMap Package.sources).Perm
      (packages.filterMap Package.source?
        ++ (packages.filterMap Package.module?).flatMap Module.allSources) := by
  induction packages with
  | nil => exact .refl _
  | cons package packages ih =>
    cases package with
    | file source => exact ih.cons source
    | directory module =>
      have hmove := List.perm_append_comm_assoc module.allSources
        (packages.filterMap Package.source?)
        ((packages.filterMap Package.module?).flatMap Module.allSources)
      exact (ih.append_left _).trans hmove

end Perm

/-- Sources put in the order of their paths, where no two have one path. -/
theorem Workspace.sortByPath_eq {α : Type} {sources others : List (SourceUnit α)}
    (hsorted : sources.Pairwise fun a b => a.path.order b.path = .lt)
    (hperm : others.Perm sources) :
    sortByPath others = sources := by
  have htrans : Std.TransCmp fun a b : SourceUnit α => a.path.order b.path :=
    transCmp_map SourceUnit.path
  have hsame : (sortByPath others).Perm sources := (List.mergeSort_perm others _).trans hperm
  have hle : sources.Pairwise fun a b => (a.path.order b.path).isLE = true :=
    hsorted.imp fun hlt => by rw [hlt]; rfl
  have hsymm : Std.Symm fun a b : SourceUnit α => a.path.order b.path ≠ .eq :=
    ⟨fun a b hne heq => hne (Std.OrientedCmp.eq_symm heq)⟩
  have hdiffer : sources.Pairwise fun a b => a.path.order b.path ≠ .eq :=
    hsorted.imp fun hlt heq => by rw [hlt] at heq; cases heq
  -- Different sources have different paths, so the order of the paths leaves no choice.
  refine hsame.eq_of_pairwise (fun a b ha hb hab hba => ?_) (pairwise_mergeSort others) hle
  by_contra hne
  exact hdiffer.forall (hsame.mem_iff.1 ha) hb hne (Std.OrientedCmp.isLE_antisymm hab hba)

/-- A module made of packages has their sources. -/
theorem Module.MadeOf.allSources_perm {module : Module SourceText} {path : Path} {name : UnitName}
    {packages : List (Package SourceText)} (h : module.MadeOf path name packages) :
    module.allSources.Perm (packages.flatMap Package.sources) := by
  have hsources := h.sources_perm.map Prod.snd
  have hsubmodules := h.submodules_perm.flatMap_right fun entry => entry.2.allSources
  rw [List.map_map, Function.comp_def, List.map_id'] at hsources
  rw [List.flatMap_map] at hsubmodules
  rw [module.allSources_eq]
  exact (hsources.append hsubmodules).trans (Package.flatMap_sources_perm packages).symm

namespace FileSystem

/-- Names lead from a path to a source: loading comes by them, and at their end is no directory but
a file with the extension of sources. -/
def Finds (files : FileSystem) (options : LoadOptions) (path : Path) (names : List FileName) :
    Prop :=
  files.Reaches path names ∧ files.isDirectory (path.joinAll names) = false
    ∧ (path.joinAll names).hasExtension options.extension = true

/-- No directory that loading comes by lists a name twice. -/
def ListsOnce (files : FileSystem) (path : Path) : Prop :=
  ∀ names listed, files.Reaches path names → files.isDirectory (path.joinAll names) = true →
    files.visibleEntries (path.joinAll names) = .ok listed → listed.Nodup

/-- All sources below a path: the names that lead to them, each once and in depth-first order, and
what the files at their ends are read to. -/
structure Sources (files : FileSystem) (options : LoadOptions) (path : Path)
    (ways : List (List FileName)) (sources : List (SourceUnit SourceText)) : Prop where
  ascending : ways.Pairwise fun a b => List.compareLex FileName.order a b = .lt
  mem_iff : ∀ names, names ∈ ways ↔ files.Finds options path names
  read : List.Forall₂
    (fun names source => files.readSource options (path.joinAll names) = .ok source) ways sources

variable {files : FileSystem} {options : LoadOptions} {path root : Path} {listed : List FileName}
  {name : FileName} {names : List FileName}

/-! ## What is found below a path -/

theorem reaches_directory_iff (hpath : files.isDirectory path = true)
    (hlisted : files.visibleEntries path = .ok listed) :
    files.Reaches path (name :: names) ↔ name ∈ listed ∧ files.Reaches (path.join name) names := by
  constructor
  · intro h
    cases h with
    | enter _ hother hname hnames =>
      rw [hlisted, Except.ok.injEq] at hother
      exact ⟨hother ▸ hname, hnames⟩
  · rintro ⟨hname, hnames⟩
    exact .enter hpath hlisted hname hnames

/-- At a file that is no directory loading comes by no further name. -/
theorem finds_file_iff (hpath : files.isDirectory path = false) :
    files.Finds options path names
      ↔ names = [] ∧ path.hasExtension options.extension = true := by
  constructor
  · rintro ⟨hreaches, -, hextension⟩
    cases hreaches with
    | here => exact ⟨rfl, hextension⟩
    | enter hdirectory => rw [hpath] at hdirectory; cases hdirectory
  · rintro ⟨rfl, hextension⟩
    exact ⟨.here path, hpath, hextension⟩

/-- In a directory a source is found below one of the entries. -/
theorem finds_directory_iff (hpath : files.isDirectory path = true)
    (hlisted : files.visibleEntries path = .ok listed) :
    files.Finds options path names
      ↔ ∃ name ∈ listed, ∃ more, names = name :: more
        ∧ files.Finds options (path.join name) more := by
  cases names with
  | nil =>
    refine iff_of_false (fun h => ?_) (by simp)
    rw [Finds, Path.joinAll_nil, hpath] at h
    exact absurd h.2.1 (by decide)
  | cons first names =>
    simp only [Finds, Path.joinAll_cons, reaches_directory_iff hpath hlisted, List.cons.injEq,
      and_assoc]
    constructor
    · rintro ⟨hfirst, hfinds⟩
      exact ⟨first, hfirst, names, rfl, rfl, hfinds⟩
    · rintro ⟨name, hname, more, rfl, rfl, hfinds⟩
      exact ⟨hname, hfinds⟩

theorem ListsOnce.join (h : files.ListsOnce path) (hpath : files.isDirectory path = true)
    (hlisted : files.visibleEntries path = .ok listed) (hname : name ∈ listed) :
    files.ListsOnce (path.join name) := by
  intro names inner hreaches hdirectory hinner
  exact h (name :: names) inner (.enter hpath hlisted hname hreaches) hdirectory hinner

/-- The entries of a directory are gone through in ascending order. -/
theorem ListsOnce.ascending (h : files.ListsOnce path) (hpath : files.isDirectory path = true)
    (hlisted : files.visibleEntries path = .ok listed) :
    listed.Pairwise fun a b => a.order b = .lt := by
  have hnodup := h [] listed (.here path) hpath hlisted
  have hsorted : listed.Pairwise fun a b => (a.order b).isLE = true := by
    rw [visibleEntries, entries] at hlisted
    cases hfault : path.fault? with
    | some fault => rw [hfault] at hlisted; cases hlisted
    | none =>
      rw [hfault] at hlisted
      cases hlist : files.list path with
      | error => rw [hlist] at hlisted; cases hlisted
      | ok all =>
        rw [hlist] at hlisted
        cases hlisted
        exact (pairwise_mergeSort all).filter _
  refine hsorted.imp₂ (fun a b hle hne => ?_) hnodup
  cases horder : a.order b with
  | lt => rfl
  | eq => exact absurd (Std.LawfulEqCmp.eq_of_compare horder) hne
  | gt => rw [horder] at hle; cases hle

/-! ## What an entry holds -/

/-- The sources below a directory's entries are, entry by entry, those of the directory. -/
theorem exists_sources_of_entries {loaded : List (Option (Package SourceText))}
    (hascending : listed.Pairwise fun a b => a.order b = .lt)
    (h : List.Forall₂ (fun name one => ∃ ways sources,
      files.Sources options (path.join name) ways sources
        ∧ (one.elim [] Package.sources).Perm sources) listed loaded) :
    ∃ ways sources,
      (ways.Pairwise fun a b => List.compareLex FileName.order a b = .lt)
        ∧ (∀ names, names ∈ ways ↔ ∃ name ∈ listed, ∃ more, names = name :: more
          ∧ files.Finds options (path.join name) more)
        ∧ List.Forall₂ (fun names source =>
          files.readSource options (path.joinAll names) = .ok source) ways sources
        ∧ (loaded.reduceOption.flatMap Package.sources).Perm sources := by
  induction h with
  | nil => exact ⟨[], [], .nil, by simp, .nil, .refl _⟩
  | @cons name one listed loaded hone _ ih =>
    obtain ⟨hfirst, hrest⟩ := List.pairwise_cons.1 hascending
    obtain ⟨ways, sources, hsources, hperm⟩ := hone
    obtain ⟨otherWays, others, hothersAscending, hothersMem, hothersRead, hothersPerm⟩ := ih hrest
    refine ⟨ways.map (name :: ·) ++ otherWays, sources ++ others, ?_, ?_, ?_, ?_⟩
    · -- What is below one entry comes before all that is below a later one.
      refine List.pairwise_append.2 ⟨List.pairwise_map.2 ?_, hothersAscending, ?_⟩
      · refine hsources.ascending.imp fun {a b} hab => ?_
        rw [List.compareLex_cons_cons, name.order_self, hab]
        rfl
      · intro a ha b hb
        obtain ⟨names, -, rfl⟩ := List.mem_map.1 ha
        obtain ⟨other, hother, more, rfl, -⟩ := (hothersMem b).1 hb
        rw [List.compareLex_cons_cons, hfirst other hother]
        rfl
    · -- names lead below the first entry or below a later one
      intro names
      rw [List.mem_append, hothersMem, List.mem_map]
      constructor
      · rintro (⟨more, hmore, rfl⟩ | ⟨other, hother, more, rfl, hfinds⟩)
        · exact ⟨name, List.mem_cons_self, more, rfl, (hsources.mem_iff more).1 hmore⟩
        · exact ⟨other, List.mem_cons_of_mem _ hother, more, rfl, hfinds⟩
      · rintro ⟨other, hother, more, rfl, hfinds⟩
        rcases List.mem_cons.1 hother with rfl | hother
        · exact .inl ⟨more, (hsources.mem_iff more).2 hfinds, rfl⟩
        · exact .inr ⟨other, hother, more, rfl, hfinds⟩
    · refine List.rel_append (List.forall₂_map_left_iff.2 ?_) hothersRead
      exact hsources.read
    · -- an entry that holds nothing adds nothing
      have hcons : (one :: loaded).reduceOption.flatMap Package.sources
          = one.elim [] Package.sources ++ loaded.reduceOption.flatMap Package.sources := by
        cases one <;> rfl
      rw [hcons]
      exact hperm.append hothersPerm

/-- The sources of what an entry holds are those below it. -/
theorem exists_sources_of_loadEntry (path : Path) {found : Option (Package SourceText)}
    (honce : files.ListsOnce path) (h : files.loadEntry options path = .ok found) :
    ∃ ways sources, files.Sources options path ways sources
      ∧ (found.elim [] Package.sources).Perm sources := by
  induction path using loading files generalizing found with
  | step path ih =>
    cases hpath : files.isDirectory path with
    | false =>
      rw [loadEntry_of_file hpath] at h
      split at h
      -- a source file is found at itself
      next hextension =>
        obtain ⟨source, hsource, rfl⟩ := map_eq_ok_iff.1 h
        refine ⟨[[]], [source], ⟨List.pairwise_singleton _ _, ?_, .cons hsource .nil⟩, .refl _⟩
        simp [finds_file_iff hpath, hextension]
      -- any other file is not found at all
      next hextension =>
        cases h
        refine ⟨[], [], ⟨.nil, ?_, .nil⟩, .refl _⟩
        simp [finds_file_iff hpath, hextension]
    | true =>
      rw [loadEntry_of_isDirectory hpath] at h
      obtain ⟨made, hmade, rfl⟩ := map_eq_ok_iff.1 h
      obtain ⟨name, listed, loaded, module, -, hlisted, hloaded, hadded, rfl⟩ :=
        loadModule_eq_ok_iff.1 hmade
      -- by induction every entry of a directory has its sources
      have hmembers := (List.forall₂_and_left listed loaded).2 ⟨fun _ hmem => hmem, hloaded⟩
      have hentries := hmembers.imp fun other one hone =>
        ih hpath other (honce.join hpath hlisted hone.1) hone.2
      obtain ⟨ways, sources, hascending, hmem, hread, hperm⟩ :=
        exists_sources_of_entries (honce.ascending hpath hlisted) hentries
      refine ⟨ways, sources, ⟨hascending, fun names => ?_, hread⟩, ?_⟩
      · rw [hmem, finds_directory_iff hpath hlisted]
      · rw [Module.elim_sources]
        exact (Module.madeOf_of_addPackages hadded).allSources_perm.trans hperm

/-! ## What a workspace holds -/

theorem Sources.map_path {ways : List (List FileName)} {sources : List (SourceUnit SourceText)}
    (h : files.Sources options path ways sources) :
    sources.map SourceUnit.path = ways.map path.joinAll := by
  obtain ⟨-, -, hread⟩ := h
  induction hread with
  | nil => rfl
  | cons hsource _ ih => rw [List.map_cons, List.map_cons, ih, (readSource_eq_ok_iff.1 hsource).1]

/-- Sources in the order of the names that lead to them are in the order of their paths. -/
theorem Sources.pairwise_path {ways : List (List FileName)}
    {sources : List (SourceUnit SourceText)} (h : files.Sources options path ways sources) :
    sources.Pairwise fun a b => a.path.order b.path = .lt := by
  have hpaths : (sources.map SourceUnit.path).Pairwise fun a b => a.order b = .lt := by
    rw [h.map_path, List.pairwise_map]
    exact h.ascending.imp fun {a b} hab => (path.order_joinAll a b).trans hab
  exact List.pairwise_map.1 hpaths

/-- The sources of a workspace are all sources below its root, in the order of the names that lead
to them. -/
theorem exists_sources_of_load {workspace : Workspace SourceText} (honce : files.ListsOnce root)
    (h : files.load options root = .ok workspace) :
    ∃ ways, files.Sources options root ways workspace.sources := by
  obtain ⟨hroot, listed, loaded, hlisted, hloaded, hadded⟩ := load_eq_ok_iff.1 h
  have hmembers := (List.forall₂_and_left listed loaded).2 ⟨fun _ hmem => hmem, hloaded⟩
  have hentries := hmembers.imp fun name one hone =>
    exists_sources_of_loadEntry (root.join name) (honce.join hroot hlisted hone.1) hone.2
  obtain ⟨ways, sources, hascending, hmem, hread, hperm⟩ :=
    exists_sources_of_entries (honce.ascending hroot hlisted) hentries
  have hsources : files.Sources options root ways sources := by
    refine ⟨hascending, fun names => ?_, hread⟩
    rw [hmem, finds_directory_iff hroot hlisted]
  obtain ⟨-, hpackages, -⟩ := Workspace.of_addPackages hadded
  have hflat := hpackages.flatMap_right fun entry => entry.2.sources
  rw [List.flatMap_map] at hflat
  have hsorted : workspace.sources = sources :=
    Workspace.sortByPath_eq hsources.pairwise_path (hflat.trans hperm)
  rw [hsorted]
  exact ⟨ways, hsources⟩

/-- Every source that an entry holds is what its own path is read to. -/
theorem readSource_of_mem_loadEntry (path : Path) {found : Option (Package SourceText)}
    {source : SourceUnit SourceText} (h : files.loadEntry options path = .ok found)
    (hsource : source ∈ found.elim [] Package.sources) :
    files.readSource options source.path = .ok source := by
  induction path using loading files generalizing found with
  | step path ih =>
    cases hpath : files.isDirectory path with
    | false =>
      rw [loadEntry_of_file hpath] at h
      split at h
      · obtain ⟨read, hread, rfl⟩ := map_eq_ok_iff.1 h
        obtain rfl : source = read := List.mem_singleton.1 hsource
        rw [(readSource_eq_ok_iff.1 hread).1]
        exact hread
      · cases h
        exact absurd hsource List.not_mem_nil
    -- a source of a directory is one of some entry of it
    | true =>
      rw [loadEntry_of_isDirectory hpath] at h
      obtain ⟨made, hmade, rfl⟩ := map_eq_ok_iff.1 h
      obtain ⟨_, listed, loaded, module, -, hlisted, hloaded, hadded, rfl⟩ :=
        loadModule_eq_ok_iff.1 hmade
      rw [Module.elim_sources] at hsource
      have hperm := (Module.madeOf_of_addPackages hadded).allSources_perm
      obtain ⟨package, hpackage, hmem⟩ := List.mem_flatMap.1 (hperm.mem_iff.1 hsource)
      obtain ⟨name, -, hentry⟩ := (mem_reduceOption_iff hloaded).1 hpackage
      exact ih hpath name hentry hmem

/-- **Every source of a loaded workspace is what its own path is read to.** -/
theorem readSource_of_mem_sources {workspace : Workspace SourceText}
    {source : SourceUnit SourceText} (h : files.load options root = .ok workspace)
    (hsource : source ∈ workspace.sources) :
    files.readSource options source.path = .ok source := by
  obtain ⟨-, listed, loaded, -, hloaded, hadded⟩ := load_eq_ok_iff.1 h
  obtain ⟨-, hperm, -⟩ := Workspace.of_addPackages hadded
  obtain ⟨entry, hmem, hsource⟩ := List.mem_flatMap.1 (List.mem_mergeSort.1 hsource)
  obtain ⟨package, hpackage, rfl⟩ := List.mem_map.1 (hperm.mem_iff.1 hmem)
  obtain ⟨name, -, hentry⟩ := (mem_reduceOption_iff hloaded).1 hpackage
  exact readSource_of_mem_loadEntry (root.join name) hentry hsource

/-- No module is without a source, its own or one of a module in it. -/
theorem allSources_ne_nil_of_loadModule (path : Path) {module : Module SourceText}
    (hpath : files.isDirectory path = true)
    (h : files.loadModule options path = .ok (some module)) : module.allSources ≠ [] := by
  induction path using loading files generalizing module with
  | step path ih =>
    obtain ⟨_, _, -, -, -, -, hnonempty⟩ := exists_of_loadModule h
    rw [module.allSources_eq]
    cases hsubmodules : module.submodules with
    | nil =>
      rw [Module.isEmpty, hsubmodules, List.isEmpty_nil, Bool.and_true,
        List.isEmpty_eq_false_iff] at hnonempty
      simpa using hnonempty
    | cons entry rest =>
      obtain ⟨key, next⟩ := entry
      have hnext : (key, next) ∈ module.submodules := by
        rw [hsubmodules]
        exact List.mem_cons_self
      obtain ⟨_, name, -, -, hentry⟩ := exists_of_mem_submodules h hnext
      obtain ⟨hinner, hload⟩ := loadModule_of_loadEntry hentry
      have hsources := ih hpath name hinner hload
      simp [hsources]

end FileSystem

end Lexis
