import Mathlib.Data.List.Forall2
import Mathlib.Data.List.Nodup
import Mathlib.Data.List.Perm.Basic
import Lexis.Workspace.Load

/-!
# Maps of what has a name

A new name is put into a map beside the names that are there, and a name that is there is refused.
So a map made by putting one value after the other under its own name holds exactly these values,
and it can be made only if no two of them have one name.

- `NameMap.insert_perm`, `NameMap.insertNew_eq_ok_iff`: one new name.
- `NameMap.insertAll`: values put into a map one after the other.
- `NameMap.exists_insertAll_iff`, `NameMap.perm_of_insertAll`: when that is possible, and what it
  makes.
- `NameMap.exists_clash_of_insertAll`: otherwise the first value whose name is taken is refused.
- `Module.addPackages_eq_ok_iff`: a module keeps its sources and its submodules apart.
-/

namespace Lexis

/-! ## Results -/

section Results

variable {ε β γ : Type} {result : Except ε β}

theorem bind_eq_ok_iff {f : β → Except ε γ} {c : γ} :
    result.bind f = .ok c ↔ ∃ b, result = .ok b ∧ f b = .ok c := by
  cases result <;> simp [Except.bind]

theorem map_eq_ok_iff {f : β → γ} {c : γ} :
    result.map f = .ok c ↔ ∃ b, result = .ok b ∧ f b = c := by
  cases result <;> simp [Except.map]

theorem map_eq_error_iff {f : β → γ} {error : ε} :
    result.map f = .error error ↔ result = .error error := by
  cases result <;> simp [Except.map]

/-- What is in the first of two related lists is related to something. -/
theorem exists_of_mem_left {R : β → γ → Prop} {l : List β} {other : List γ} {b : β}
    (h : List.Forall₂ R l other) (hb : b ∈ l) : ∃ c, R b c := by
  induction h with
  | nil => cases hb
  | cons hfirst _ ih =>
    rcases List.mem_cons.1 hb with rfl | hb
    · exact ⟨_, hfirst⟩
    · exact ih hb

end Results

/-! ## Maps -/

instance : Std.LawfulEqCmp UnitName.order where
  compare_self {name} := by
    show List.compareLex compare name.text name.text = .eq
    exact Std.ReflCmp.compare_self
  eq_of_compare {a b} h := by
    have htext : List.compareLex compare a.text b.text = .eq := h
    cases a
    cases b
    cases Std.LawfulEqCmp.eq_of_compare htext
    rfl

namespace NameMap

section Insert

universe u

variable {β : Type u} {name : UnitName} {value : β} {values result : NameMap β}

theorem find?_eq_none_iff : find? name values = none ↔ name ∉ values.map Prod.fst := by
  induction values with
  | nil => simp [find?]
  | cons entry values ih =>
    obtain ⟨other, old⟩ := entry
    rw [find?, List.map_cons, List.mem_cons, not_or, ← ih]
    by_cases hname : other = name
    · simp [hname]
    · simp [hname, Ne.symm hname]

theorem mem_of_find? (h : find? name values = some value) : (name, value) ∈ values := by
  induction values with
  | nil => cases h
  | cons entry values ih =>
    obtain ⟨other, old⟩ := entry
    rw [find?] at h
    split at h
    next hname =>
      cases h
      rw [hname]
      exact List.mem_cons_self
    · exact List.mem_cons_of_mem _ (ih h)

/-- A new name is put beside those that are there. -/
theorem insert_perm (h : name ∉ values.map Prod.fst) :
    (insert name value values).Perm ((name, value) :: values) := by
  induction values with
  | nil => exact .refl _
  | cons entry values ih =>
    obtain ⟨other, old⟩ := entry
    rw [List.map_cons, List.mem_cons, not_or] at h
    rw [insert]
    split
    · exact .refl _
    next heq => exact absurd (Std.LawfulEqCmp.eq_of_compare heq) h.1
    · exact ((ih h.2).cons _).trans (.swap _ _ _)

/-- A map with a new value in it, and what is to come after it. -/
theorem insert_append_perm (h : name ∉ values.map Prod.fst) (value : β)
    (more : List (UnitName × β)) :
    (insert name value values ++ more).Perm (values ++ (name, value) :: more) :=
  ((insert_perm h).append_right more).trans List.perm_middle.symm

end Insert

variable {β : Type} {pathOf : β → Path} {nameOf : β → UnitName} {value : β} {values : List β}
  {name : UnitName} {start result : NameMap β}

theorem insertNew_of_not_mem (h : name ∉ start.map Prod.fst) :
    insertNew pathOf name value start = .ok (insert name value start) := by
  rw [insertNew, find?_eq_none_iff.2 h]

theorem insertNew_eq_ok_iff :
    insertNew pathOf name value start = .ok result
      ↔ name ∉ start.map Prod.fst ∧ result = insert name value start := by
  rw [insertNew, ← find?_eq_none_iff]
  cases find? name start <;> simp [eq_comm]

/-- Values put into a map one after the other, each under its own name. -/
def insertAll (pathOf : β → Path) (nameOf : β → UnitName) (start : NameMap β) (values : List β) :
    Except LoadError (NameMap β) :=
  values.foldlM (fun start value => insertNew pathOf (nameOf value) value start) start

theorem insertAll_nil : insertAll pathOf nameOf start [] = .ok start := rfl

theorem insertAll_cons :
    insertAll pathOf nameOf start (value :: values)
      = (insertNew pathOf (nameOf value) value start).bind
        fun next => insertAll pathOf nameOf next values := rfl

/-- Values can be put into a map if the names of all are different. -/
theorem exists_insertAll_iff (hstart : (start.map Prod.fst).Nodup) :
    (∃ result, insertAll pathOf nameOf start values = .ok result)
      ↔ (start.map Prod.fst ++ values.map nameOf).Nodup := by
  induction values generalizing start with
  | nil => simpa [insertAll_nil] using hstart
  | cons value values ih =>
    rw [insertAll_cons]
    by_cases hmem : nameOf value ∈ start.map Prod.fst
    · constructor
      · rintro ⟨result, hresult⟩
        obtain ⟨next, hnew, -⟩ := bind_eq_ok_iff.1 hresult
        exact absurd hmem (insertNew_eq_ok_iff.1 hnew).1
      · intro hnodup
        exact absurd rfl ((List.nodup_append.1 hnodup).2.2 _ hmem _ List.mem_cons_self)
    · have hnext : ((insert (nameOf value) value start).map Prod.fst).Nodup :=
        ((insert_perm hmem).map Prod.fst).nodup_iff.2 (List.nodup_cons.2 ⟨hmem, hstart⟩)
      rw [insertNew_of_not_mem hmem]
      have hkeys := (insert_append_perm hmem value
        (values.map fun value => (nameOf value, value))).map Prod.fst
      simp only [List.map_append, List.map_map, Function.comp_def, List.map_cons] at hkeys
      exact (ih hnext).trans hkeys.nodup_iff

/-- What is in a map that values were put into: what was there, and the values. -/
theorem perm_of_insertAll (h : insertAll pathOf nameOf start values = .ok result) :
    result.Perm (start ++ values.map fun value => (nameOf value, value)) := by
  induction values generalizing start with
  | nil =>
    cases h
    simp
  | cons value values ih =>
    obtain ⟨next, hnew, hnext⟩ := bind_eq_ok_iff.1 h
    obtain ⟨hmem, rfl⟩ := insertNew_eq_ok_iff.1 hnew
    exact (ih hnext).trans (insert_append_perm hmem value _)

/-- Values can be put into an empty map if no two of them have one name. -/
theorem exists_insertAll_nil_iff (pathOf : β → Path) :
    (∃ result, insertAll pathOf nameOf [] values = .ok result) ↔ (values.map nameOf).Nodup :=
  exists_insertAll_iff List.nodup_nil

theorem nodup_of_insertAll (h : insertAll pathOf nameOf [] values = .ok result) :
    (result.map Prod.fst).Nodup := by
  have hnodup := (exists_insertAll_nil_iff pathOf).1 ⟨result, h⟩
  have hkeys := (perm_of_insertAll h).map Prod.fst
  rw [List.nil_append, List.map_map] at hkeys
  exact hkeys.nodup_iff.2 hnodup

/-- The first value whose name is taken is refused. -/
theorem exists_clash_of_insertAll {error : LoadError}
    (h : insertAll pathOf nameOf start values = .error error) :
    ∃ front second back first, values = front ++ second :: back
      ∧ (nameOf second, first) ∈ start ++ front.map (fun value => (nameOf value, value))
      ∧ error = .duplicateName (nameOf second) (pathOf first) (pathOf second) := by
  induction values generalizing start with
  | nil => cases h
  | cons value values ih =>
    rw [insertAll_cons] at h
    cases hfind : find? (nameOf value) start with
    | some old =>
      refine ⟨[], value, values, old, rfl, ?_, ?_⟩
      · exact List.mem_append_left _ (mem_of_find? hfind)
      · rw [insertNew, hfind] at h
        cases h
        rfl
    | none =>
      have hmem := find?_eq_none_iff.1 hfind
      rw [insertNew_of_not_mem hmem] at h
      obtain ⟨front, second, back, first, rfl, hfirst, rfl⟩ := ih h
      refine ⟨value :: front, second, back, first, rfl, ?_, rfl⟩
      exact (insert_append_perm hmem value _).mem_iff.1 hfirst

end NameMap

/-! ## Modules and workspaces -/

namespace Package

universe u

variable {α : Type u}

/-- The source that a package is. -/
def source? : Package α → Option (SourceUnit α)
  | file source => some source
  | directory _ => none

/-- The module that a package is. -/
def module? : Package α → Option (Module α)
  | file _ => none
  | directory module => some module

theorem source?_eq_some_iff {package : Package α} {source : SourceUnit α} :
    package.source? = some source ↔ package = .file source := by
  cases package <;> simp [source?]

theorem module?_eq_some_iff {package : Package α} {module : Module α} :
    package.module? = some module ↔ package = .directory module := by
  cases package <;> simp [module?]

end Package

variable {α : Type}

/-- A module keeps what it is given in two maps, sources apart from submodules. -/
theorem Module.addPackages_eq_ok_iff {start module : Module α} {packages : List (Package α)} :
    packages.foldlM Module.addPackage start = .ok module
      ↔ ∃ sources submodules,
        NameMap.insertAll SourceUnit.path SourceUnit.name start.sources
            (packages.filterMap Package.source?) = .ok sources
          ∧ NameMap.insertAll Module.path Module.name start.submodules
            (packages.filterMap Package.module?) = .ok submodules
          ∧ module = .mk start.path start.name sources submodules := by
  induction packages generalizing start with
  | nil =>
    cases start
    simp [NameMap.insertAll_nil, pure, Except.pure, Module.sources, Module.submodules,
      Module.path, Module.name, eq_comm]
  | cons package packages ih =>
    rw [List.foldlM_cons]
    refine bind_eq_ok_iff.trans ?_
    cases start with
    | mk path name sources submodules =>
      simp only [ih]
      cases package with
      -- a source goes into the one map
      | file source =>
        simp only [Module.addPackage, List.filterMap_cons, Package.source?, Package.module?,
          NameMap.insertAll_cons, map_eq_ok_iff, bind_eq_ok_iff]
        constructor
        · rintro ⟨next, ⟨added, hadded, rfl⟩, sources, submodules, hsources, hsubmodules, rfl⟩
          exact ⟨sources, submodules, ⟨added, hadded, hsources⟩, hsubmodules, rfl⟩
        · rintro ⟨sources, submodules, ⟨added, hadded, hsources⟩, hsubmodules, rfl⟩
          exact ⟨_, ⟨added, hadded, rfl⟩, sources, submodules, hsources, hsubmodules, rfl⟩
      -- and a module into the other
      | directory inner =>
        simp only [Module.addPackage, List.filterMap_cons, Package.source?, Package.module?,
          NameMap.insertAll_cons, map_eq_ok_iff, bind_eq_ok_iff]
        constructor
        · rintro ⟨next, ⟨added, hadded, rfl⟩, sources, submodules, hsources, hsubmodules, rfl⟩
          exact ⟨sources, submodules, hsources, ⟨added, hadded, hsubmodules⟩, rfl⟩
        · rintro ⟨sources, submodules, hsources, ⟨added, hadded, hsubmodules⟩, rfl⟩
          exact ⟨_, ⟨added, hadded, rfl⟩, sources, submodules, hsources, hsubmodules, rfl⟩

/-- A module made of packages: its own sources are those among them, and its submodules too, each
under its own name and no name twice in one of the two maps. -/
structure Module.MadeOf (module : Module α) (path : Path) (name : UnitName)
    (packages : List (Package α)) : Prop where
  path_eq : module.path = path
  name_eq : module.name = name
  sources_perm : module.sources.Perm
    ((packages.filterMap Package.source?).map fun source => (source.name, source))
  submodules_perm : module.submodules.Perm
    ((packages.filterMap Package.module?).map fun inner => (inner.name, inner))
  sources_nodup : (module.sources.map Prod.fst).Nodup
  submodules_nodup : (module.submodules.map Prod.fst).Nodup

theorem Module.madeOf_of_addPackages {path : Path} {name : UnitName} {module : Module α}
    {packages : List (Package α)}
    (h : packages.foldlM Module.addPackage (Module.empty path name) = .ok module) :
    module.MadeOf path name packages := by
  obtain ⟨sources, submodules, hsources, hsubmodules, rfl⟩ := addPackages_eq_ok_iff.1 h
  exact {
    path_eq := rfl
    name_eq := rfl
    sources_perm := NameMap.perm_of_insertAll hsources
    submodules_perm := NameMap.perm_of_insertAll hsubmodules
    sources_nodup := NameMap.nodup_of_insertAll hsources
    submodules_nodup := NameMap.nodup_of_insertAll hsubmodules }

/-- A module can be made of packages if no two sources and no two modules among them have one
name. -/
theorem Module.exists_addPackages_iff {path : Path} {name : UnitName}
    {packages : List (Package α)} :
    (∃ module, packages.foldlM Module.addPackage (Module.empty path name) = .ok module)
      ↔ ((packages.filterMap Package.source?).map SourceUnit.name).Nodup
        ∧ ((packages.filterMap Package.module?).map Module.name).Nodup := by
  rw [← NameMap.exists_insertAll_nil_iff SourceUnit.path,
    ← NameMap.exists_insertAll_nil_iff Module.path]
  constructor
  · rintro ⟨module, hmodule⟩
    obtain ⟨sources, submodules, hsources, hsubmodules, -⟩ := addPackages_eq_ok_iff.1 hmodule
    exact ⟨⟨sources, hsources⟩, ⟨submodules, hsubmodules⟩⟩
  · rintro ⟨⟨sources, hsources⟩, ⟨submodules, hsubmodules⟩⟩
    exact ⟨_, addPackages_eq_ok_iff.2 ⟨sources, submodules, hsources, hsubmodules, rfl⟩⟩

/-- A workspace keeps all packages in one map. -/
theorem Workspace.addPackages_eq (start : Workspace α) (packages : List (Package α)) :
    packages.foldlM Workspace.addPackage start
      = (NameMap.insertAll Package.path Package.name start.packages packages).map
        (⟨start.root, ·⟩) := by
  induction packages generalizing start with
  | nil => rfl
  | cons package packages ih =>
    rw [List.foldlM_cons, NameMap.insertAll_cons]
    cases hnew : NameMap.insertNew Package.path package.name package start.packages with
    | error error => simp [Workspace.addPackage, hnew, Except.map, Except.bind, bind]
    | ok next =>
      have hadd : start.addPackage package = .ok ⟨start.root, next⟩ := by
        rw [Workspace.addPackage, hnew]
        rfl
      rw [hadd]
      exact ih ⟨start.root, next⟩

/-- A workspace made of packages: it holds each of them under its own name, and no name twice. -/
theorem Workspace.of_addPackages {root : Path} {workspace : Workspace α}
    {packages : List (Package α)}
    (h : packages.foldlM Workspace.addPackage (Workspace.empty root) = .ok workspace) :
    workspace.root = root
      ∧ workspace.packages.Perm (packages.map fun package => (package.name, package))
      ∧ (workspace.packages.map Prod.fst).Nodup := by
  rw [addPackages_eq] at h
  obtain ⟨result, hresult, rfl⟩ := map_eq_ok_iff.1 h
  exact ⟨rfl, NameMap.perm_of_insertAll hresult,
    NameMap.nodup_of_insertAll hresult⟩

end Lexis
