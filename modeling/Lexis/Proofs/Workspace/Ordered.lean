import Lexis.Proofs.Workspace.Loading
import Lexis.Proofs.Workspace.Pointwise

/-!
# The maps of a workspace are ordered

The maps of a workspace ascend by name, so each of them has a name once. To put a value under a name
keeps one map so; a workspace is changed in no other way, whether it is put together by hand or
loaded, and other models leave the names alone.

- `NameMap.Ascending`: each name comes before all that follow it.
- `NameMap.Ascending.insert`, `NameMap.Ascending.insertNew`: a value put under a name, new or not,
  and under new names only.
- `Module.IsOrdered`, `Workspace.IsOrdered`: every map does, at every depth.
- `Workspace.Made`, `Workspace.Made.isOrdered`: workspaces put together step by step.
- `FileSystem.isOrdered_load`: workspaces that are loaded.
- `Workspace.IsOrdered.isKeyed`: in all of these every map has each key once.
-/

namespace Lexis

variable {α β : Type}

/-! ## One map -/

namespace NameMap

variable {name : UnitName} {value : α} {values result : NameMap α} {entry : UnitName × α}

instance : Std.TransCmp UnitName.order :=
  transCmp_map UnitName.text

/-- Each name comes before all that follow it. -/
def Ascending (values : NameMap α) : Prop :=
  values.Pairwise fun a b => a.1.order b.1 = .lt

/-- What is in a map afterwards is the new value, or was there before. -/
theorem eq_or_mem_of_mem_insert (h : entry ∈ insert name value values) :
    entry = (name, value) ∨ entry ∈ values := by
  induction values with
  | nil => exact .inl (List.mem_singleton.1 h)
  | cons first values ih =>
    obtain ⟨other, old⟩ := first
    rw [insert] at h
    split at h
    · exact List.mem_cons.1 h
    · exact (List.mem_cons.1 h).imp_right (List.mem_cons_of_mem _)
    · rcases List.mem_cons.1 h with rfl | h
      · exact .inr List.mem_cons_self
      · exact (ih h).imp_right (List.mem_cons_of_mem _)

/-- **A value put under a name keeps a map ascending**: it comes in front of the first greater name,
or in place of the value that had its name. -/
theorem Ascending.insert (h : values.Ascending) (name : UnitName) (value : α) :
    (insert name value values).Ascending := by
  induction values with
  | nil => exact List.pairwise_singleton _ _
  | cons first values ih =>
    obtain ⟨other, old⟩ := first
    obtain ⟨hfirst, hvalues⟩ := List.pairwise_cons.1 h
    rw [NameMap.insert]
    split
    next hlt =>
      refine .cons (fun entry hentry => ?_) h
      rcases List.mem_cons.1 hentry with rfl | hentry
      · exact hlt
      · exact Std.TransCmp.lt_trans hlt (hfirst entry hentry)
    next heq =>
      obtain rfl : name = other := Std.LawfulEqCmp.eq_of_compare heq
      exact .cons hfirst hvalues
    next hgt =>
      refine .cons (fun entry hentry => ?_) (ih hvalues)
      rcases eq_or_mem_of_mem_insert hentry with rfl | hentry
      · exact Std.OrientedCmp.lt_of_gt hgt
      · exact hfirst entry hentry

/-- So does a value that is put under a name only if that is new. -/
theorem Ascending.insertNew {pathOf : α → Path} (h : values.Ascending)
    (hresult : insertNew pathOf name value values = .ok result) : result.Ascending := by
  rw [(insertNew_eq_ok_iff.1 hresult).2]
  exact h.insert name value

/-- To change the values of a map leaves its names. -/
theorem Ascending.map (h : values.Ascending) (g : α → β) :
    Ascending (values.map fun (key, a) => (key, g a)) :=
  List.pairwise_map.2 h

/-- Ascending names are different. -/
theorem Ascending.nodup (h : values.Ascending) : (values.map Prod.fst).Nodup := by
  refine List.pairwise_map.2 (h.imp fun {a b} hlt heq => ?_)
  have hself : b.1.order b.1 = .eq := Std.ReflCmp.compare_self
  rw [heq, hself] at hlt
  cases hlt

end NameMap

/-! ## Modules -/

/-- Every map in the module ascends. -/
inductive Module.IsOrdered : Module α → Prop
  | mk {module : Module α} (hsources : module.sources.Ascending)
      (hsubmodules : module.submodules.Ascending)
      (hinner : ∀ entry ∈ module.submodules, IsOrdered entry.2) : IsOrdered module

/-- Every map in the package ascends; a single source has none. -/
def Package.IsOrdered : Package α → Prop
  | .file _ => True
  | .directory module => module.IsOrdered

namespace Module

variable {module inner : Module α}

theorem isOrdered_empty (path : Path) (name : UnitName) : (empty path name : Module α).IsOrdered :=
  .mk .nil .nil fun _ hentry => absurd hentry List.not_mem_nil

theorem IsOrdered.insertSource (h : module.IsOrdered) (name : UnitName) (source : SourceUnit α) :
    (module.insertSource name source).IsOrdered := by
  obtain ⟨hsources, hsubmodules, hinner⟩ := h
  exact .mk (hsources.insert name source) hsubmodules hinner

theorem IsOrdered.insertModule (h : module.IsOrdered) (name : UnitName) (hin : inner.IsOrdered) :
    (module.insertModule name inner).IsOrdered := by
  obtain ⟨hsources, hsubmodules, hinner⟩ := h
  refine .mk hsources (hsubmodules.insert name inner) fun entry hentry => ?_
  rcases NameMap.eq_or_mem_of_mem_insert hentry with rfl | hentry
  · exact hin
  · exact hinner entry hentry

/-- What is found under a name is ordered. -/
theorem IsOrdered.of_find? (h : module.IsOrdered) {name : UnitName}
    (hfind : NameMap.find? name module.submodules = some inner) : inner.IsOrdered := by
  obtain ⟨-, -, hinner⟩ := h
  exact hinner _ (NameMap.mem_of_find? hfind)

/-- A change that keeps modules ordered does so at every depth. -/
theorem IsOrdered.update? {f : Module α → Module α} (hf : ∀ {inner}, inner.IsOrdered →
    (f inner).IsOrdered) {names : List UnitName} {changed : Module α} (h : module.IsOrdered)
    (hchanged : module.update? f names = some changed) : changed.IsOrdered := by
  induction names generalizing module changed with
  | nil =>
    obtain rfl := Option.some.inj hchanged
    exact hf h
  | cons name names ih =>
    rw [Module.update?] at hchanged
    split at hchanged
    · cases hchanged
    next inner hfind =>
      obtain ⟨below, hbelow, rfl⟩ := Option.map_eq_some_iff.1 hchanged
      exact h.insertModule name (ih (h.of_find? hfind) hbelow)

theorem IsOrdered.addPackage {package : Package α} {result : Module α} (h : module.IsOrdered)
    (hpackage : package.IsOrdered) (hresult : module.addPackage package = .ok result) :
    result.IsOrdered := by
  obtain ⟨path, name, sources, submodules⟩ := module
  cases package with
  | file source =>
    obtain ⟨next, hnext, rfl⟩ := map_eq_ok_iff.1 hresult
    obtain ⟨-, rfl⟩ := NameMap.insertNew_eq_ok_iff.1 hnext
    exact h.insertSource source.name source
  | directory inner =>
    obtain ⟨next, hnext, rfl⟩ := map_eq_ok_iff.1 hresult
    obtain ⟨-, rfl⟩ := NameMap.insertNew_eq_ok_iff.1 hnext
    exact h.insertModule inner.name hpackage

theorem mapAll_eq (f : α → β) (modules : List (UnitName × Module α)) :
    mapAll f modules = modules.map fun (key, module) => (key, module.map f) := by
  induction modules with
  | nil => rw [mapAll, List.map_nil]
  | cons entry modules ih => rw [mapAll, ih, List.map_cons]

/-- Other models leave the maps as they are, at every depth. -/
theorem IsOrdered.map (h : module.IsOrdered) (f : α → β) : (module.map f).IsOrdered := by
  induction h with
  | @mk module hsources hsubmodules hinner ih =>
    obtain ⟨path, name, sources, submodules⟩ := module
    rw [Module.map, mapAll_eq]
    refine .mk (NameMap.Ascending.map hsources _) (NameMap.Ascending.map hsubmodules _) ?_
    exact List.forall_mem_map.2 ih

/-- In an ordered module every map has each key once. -/
theorem IsOrdered.isKeyed (h : module.IsOrdered) : module.IsKeyed := by
  induction h with
  | mk hsources hsubmodules hinner ih => exact .mk hsources.nodup hsubmodules.nodup ih

end Module

/-! ## Workspaces -/

/-- Every map in the workspace ascends. -/
structure Workspace.IsOrdered (workspace : Workspace α) : Prop where
  packages : workspace.packages.Ascending
  inner : ∀ entry ∈ workspace.packages, entry.2.IsOrdered

namespace Workspace

variable {workspace : Workspace α} {package : Package α}

theorem isOrdered_empty (root : Path) : (empty root : Workspace α).IsOrdered :=
  ⟨.nil, fun _ hentry => absurd hentry List.not_mem_nil⟩

theorem IsOrdered.insert (h : workspace.IsOrdered) (name : UnitName)
    (hpackage : package.IsOrdered) :
    (workspace.insert name package).IsOrdered := by
  refine ⟨h.packages.insert name package, fun entry hentry => ?_⟩
  rcases NameMap.eq_or_mem_of_mem_insert hentry with rfl | hentry
  · exact hpackage
  · exact h.inner entry hentry

theorem IsOrdered.updateModule? {f : Module α → Module α} {names : List UnitName}
    {changed : Workspace α} (h : workspace.IsOrdered)
    (hf : ∀ {inner : Module α}, inner.IsOrdered → (f inner).IsOrdered)
    (hchanged : workspace.updateModule? f names = some changed) : changed.IsOrdered := by
  cases names with
  | nil => cases hchanged
  | cons name names =>
    rw [Workspace.updateModule?] at hchanged
    split at hchanged
    next module hfind =>
      obtain ⟨next, hnext, rfl⟩ := Option.map_eq_some_iff.1 hchanged
      have hmodule : module.IsOrdered := h.inner _ (NameMap.mem_of_find? hfind)
      exact h.insert name (hmodule.update? hf hnext)
    · cases hchanged

theorem IsOrdered.addPackage {result : Workspace α} (h : workspace.IsOrdered)
    (hpackage : package.IsOrdered) (hresult : workspace.addPackage package = .ok result) :
    result.IsOrdered := by
  obtain ⟨next, hnext, rfl⟩ := map_eq_ok_iff.1 hresult
  obtain ⟨-, rfl⟩ := NameMap.insertNew_eq_ok_iff.1 hnext
  exact h.insert package.name hpackage

theorem IsOrdered.map (h : workspace.IsOrdered) (f : α → β) : (workspace.map f).IsOrdered := by
  refine ⟨NameMap.Ascending.map h.packages _, List.forall_mem_map.2 fun entry hentry => ?_⟩
  obtain ⟨key, package⟩ := entry
  cases package with
  | file source => trivial
  | directory module =>
    have hmodule : module.IsOrdered := h.inner _ hentry
    exact hmodule.map f

/-- **In an ordered workspace every map has each key once.** -/
theorem IsOrdered.isKeyed (h : workspace.IsOrdered) : workspace.IsKeyed := by
  refine ⟨h.packages.nodup, fun key module hmem => ?_⟩
  have hmodule : module.IsOrdered := h.inner _ hmem
  exact hmodule.isKeyed

/-- Workspaces that are put together from nothing: packages are put under names, sources and empty
modules into the modules there are, and the models are replaced. -/
inductive Made : Workspace α → Prop
  | empty (root : Path) : Made (empty root)
  | file {workspace : Workspace α} (name : UnitName) (source : SourceUnit α)
      (h : Made workspace) : Made (workspace.insert name (.file source))
  | directory {workspace : Workspace α} (name : UnitName) (path : Path) (own : UnitName)
      (h : Made workspace) : Made (workspace.insert name (.directory (Module.empty path own)))
  | source {workspace changed : Workspace α} (names : List UnitName) (name : UnitName)
      (source : SourceUnit α) (h : Made workspace)
      (hchanged : workspace.updateModule? (·.insertSource name source) names = some changed) :
      Made changed
  | submodule {workspace changed : Workspace α} (names : List UnitName) (name : UnitName)
      (path : Path) (own : UnitName) (h : Made workspace)
      (hchanged : workspace.updateModule? (·.insertModule name (Module.empty path own)) names =
        some changed) : Made changed
  | map {workspace : Workspace α} (f : α → α) (h : Made workspace) : Made (workspace.map f)

/-- **Whatever is put together is ordered**, since every step keeps it so. -/
theorem Made.isOrdered (h : workspace.Made) : workspace.IsOrdered := by
  induction h with
  | empty root => exact isOrdered_empty root
  | file name source h ih => exact ih.insert name trivial
  | directory name path own h ih =>
    have hmodule : (Package.directory (Module.empty path own) : Package α).IsOrdered :=
      Module.isOrdered_empty path own
    exact ih.insert name hmodule
  | source names name source h hchanged ih =>
    exact ih.updateModule? (fun hinner => hinner.insertSource name source) hchanged
  | submodule names name path own h hchanged ih =>
    exact ih.updateModule?
      (fun hinner => hinner.insertModule name (Module.isOrdered_empty path own)) hchanged
  | map f h ih => exact ih.map f

end Workspace

/-! ## Loaded workspaces -/

/-- What holds of nothing found yet, and is kept by every entry that is added, holds in the end. -/
theorem addEntries_keeps {σ : Type}
    {load : FileName → Except LoadError (Option (Package SourceText))}
    {add : σ → Package SourceText → Except LoadError σ} {holds : σ → Prop}
    (hadd : ∀ name package found result, load name = .ok (some package) → holds found →
      add found package = .ok result → holds result)
    {found result : σ} {names : List FileName} (hfound : holds found)
    (hresult : addEntries load add found names = .ok result) : holds result := by
  induction names generalizing found with
  | nil =>
    cases hresult
    exact hfound
  | cons name names ih =>
    rw [addEntries] at hresult
    split at hresult
    · cases hresult
    · exact ih hfound hresult
    next package hload =>
      split at hresult
      · cases hresult
      next next hnext => exact ih (hadd name package found next hload hfound hnext) hresult

namespace FileSystem

variable {files : FileSystem} {options : LoadOptions} {path root : Path}

/-- An entry is ordered if a directory's module is. -/
theorem isOrdered_loadEntry {package : Package SourceText}
    (hmodule : files.isDirectory path = true →
      ∀ module, files.loadModule options path = .ok (some module) → module.IsOrdered)
    (h : files.loadEntry options path = .ok (some package)) : package.IsOrdered := by
  cases package with
  | file source => trivial
  | directory module =>
    obtain ⟨hpath, hload⟩ := loadModule_of_loadEntry h
    exact hmodule hpath module hload

/-- **The module of a directory is ordered**, by induction down the directories. -/
theorem isOrdered_loadModule (files : FileSystem) (options : LoadOptions) (path : Path) :
    files.isDirectory path = true →
      ∀ module, files.loadModule options path = .ok (some module) → module.IsOrdered := by
  induction path using files.loading with
  | step path ih =>
    intro hpath module h
    rw [loadModule_eq] at h
    obtain ⟨name, -, h⟩ := bind_eq_ok_iff.1 h
    obtain ⟨names, -, h⟩ := bind_eq_ok_iff.1 h
    obtain ⟨made, hmade, hfound⟩ := map_eq_ok_iff.1 h
    obtain rfl : made = module := by
      split at hfound
      · cases hfound
      · exact Option.some.inj hfound
    refine addEntries_keeps (fun entry package found result hload hordered hresult => ?_)
      (Module.isOrdered_empty path name) hmade
    exact hordered.addPackage (isOrdered_loadEntry (ih hpath entry) hload) hresult

/-- **A workspace that is loaded is ordered.** -/
theorem isOrdered_load {workspace : Workspace SourceText}
    (h : files.load options root = .ok workspace) : workspace.IsOrdered := by
  rw [load] at h
  split at h
  · split at h
    · cases h
    · refine addEntries_keeps (fun entry package found result hload hordered hresult => ?_)
        (Workspace.isOrdered_empty root) h
      have hmodule := isOrdered_loadModule files options (root.join entry)
      exact hordered.addPackage (isOrdered_loadEntry hmodule hload) hresult
  · cases h

/-- So every map of a loaded workspace has each key once, and its scans have the same maps. -/
theorem isKeyed_load {workspace : Workspace SourceText}
    (h : files.load options root = .ok workspace) :
    workspace.IsKeyed ∧ workspace.lex.IsKeyed :=
  ⟨(isOrdered_load h).isKeyed, ((isOrdered_load h).map LexedSource.ofText).isKeyed⟩

end FileSystem

end Lexis
