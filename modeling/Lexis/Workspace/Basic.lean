import Lexis.File.Path
import Lexis.Lexeme
import Lexis.UnitName

/-!
# Workspaces

A workspace is what lies below one root directory: packages, each a single source or a directory
module, and modules that hold sources and further modules. Every source carries a model, whatever is
known of it so far.

- `NameMap`: what is kept under names, ascending by name.
- `SourceUnit`, `Module`, `Package`, `Workspace`: the tree.
- `Workspace.sources`: every source, in the order of the paths.
- `Workspace.map`: the tree with another model for each source.
- `Workspace.lex`: every source scanned, each by itself; `Workspace.failures` and
  `Workspace.lexemeCount` say what was found.
- `Workspace.module?`, `Workspace.updateModule?`: the module at a path of names.
-/

namespace Lexis

universe u v

/-- Values under names, ascending by name and each name once. -/
abbrev NameMap (β : Type u) := List (UnitName × β)

namespace NameMap

/-- The value under a name. -/
def find? {β : Type u} (name : UnitName) : NameMap β → Option β
  | [] => none
  | (other, value) :: rest => if other = name then some value else find? name rest

/-- The map with a value under a name, in place of the one that was there. -/
def insert {β : Type u} (name : UnitName) (value : β) : NameMap β → NameMap β
  | [] => [(name, value)]
  | (other, old) :: rest =>
    match name.order other with
    | .lt => (name, value) :: (other, old) :: rest
    | .eq => (name, value) :: rest
    | .gt => (other, old) :: insert name value rest

end NameMap

/-- One source: where it is, what it is called, and its model. -/
structure SourceUnit (α : Type u) where
  path : Path
  name : UnitName
  model : α
  deriving DecidableEq

/-- The source with another model. -/
def SourceUnit.map {α : Type u} {β : Type v} (f : α → β) (source : SourceUnit α) : SourceUnit β :=
  ⟨source.path, source.name, f source.model⟩

/-- A directory of sources and modules. Both may use one name: each has names of its own. -/
inductive Module (α : Type u) where
  | mk (path : Path) (name : UnitName) (sources : List (UnitName × SourceUnit α))
      (submodules : List (UnitName × Module α))

namespace Module

variable {α : Type u} {β : Type v}

/-- Where the module is. -/
def path : Module α → Path
  | mk path _ _ _ => path

/-- What the module is called. -/
def name : Module α → UnitName
  | mk _ name _ _ => name

/-- The sources of the module itself. -/
def sources : Module α → NameMap (SourceUnit α)
  | mk _ _ sources _ => sources

/-- The modules in the module. -/
def submodules : Module α → NameMap (Module α)
  | mk _ _ _ submodules => submodules

/-- A module that holds nothing yet. -/
def empty (path : Path) (name : UnitName) : Module α := mk path name [] []

/-- Whether the module holds nothing. -/
def isEmpty (module : Module α) : Bool := module.sources.isEmpty && module.submodules.isEmpty

/-- The module with a source under a name. -/
def insertSource (module : Module α) (name : UnitName) (source : SourceUnit α) : Module α :=
  mk module.path module.name (NameMap.insert name source module.sources) module.submodules

/-- The module with a submodule under a name. -/
def insertModule (module : Module α) (name : UnitName) (inner : Module α) : Module α :=
  mk module.path module.name module.sources (NameMap.insert name inner module.submodules)

mutual

/-- Every source of the module and of the modules in it. -/
def allSources : Module α → List (SourceUnit α)
  | mk _ _ sources submodules => sources.map Prod.snd ++ allSourcesOf submodules

/-- Every source of some modules. -/
def allSourcesOf : List (UnitName × Module α) → List (SourceUnit α)
  | [] => []
  | (_, module) :: rest => allSources module ++ allSourcesOf rest

end

mutual

/-- The module with another model for each source. -/
def map (f : α → β) : Module α → Module β
  | mk path name sources submodules =>
    mk path name (sources.map fun (key, source) => (key, source.map f)) (mapAll f submodules)

/-- Modules with another model for each source. -/
def mapAll (f : α → β) : List (UnitName × Module α) → List (UnitName × Module β)
  | [] => []
  | (key, module) :: rest => (key, map f module) :: mapAll f rest

end

/-- The module at a path of names below a module. -/
def descend? (module : Module α) : List UnitName → Option (Module α)
  | [] => some module
  | name :: names =>
    match NameMap.find? name module.submodules with
    | none => none
    | some inner => inner.descend? names

/-- The module with `f` done to the module at a path of names below it. -/
def update? (module : Module α) (f : Module α → Module α) : List UnitName → Option (Module α)
  | [] => some (f module)
  | name :: names =>
    match NameMap.find? name module.submodules with
    | none => none
    | some inner => (inner.update? f names).map (module.insertModule name)

end Module

/-- What a workspace holds directly: a single source or a directory. -/
inductive Package (α : Type u) where
  | file (source : SourceUnit α)
  | directory (module : Module α)

namespace Package

variable {α : Type u} {β : Type v}

/-- What the package is called. -/
def name : Package α → UnitName
  | file source => source.name
  | directory module => module.name

/-- Where the package is. -/
def path : Package α → Path
  | file source => source.path
  | directory module => module.path

/-- Whether the package is a single source. -/
def isFile : Package α → Bool
  | file _ => true
  | directory _ => false

/-- Every source of the package. -/
def sources : Package α → List (SourceUnit α)
  | file source => [source]
  | directory module => module.allSources

/-- The package with another model for each source. -/
def map (f : α → β) : Package α → Package β
  | file source => file (source.map f)
  | directory module => directory (module.map f)

end Package

/-- The packages below one root directory. -/
structure Workspace (α : Type u) where
  root : Path
  packages : NameMap (Package α)

namespace Workspace

variable {α : Type u} {β : Type v}

/-- A workspace that holds nothing yet. -/
def empty (root : Path) : Workspace α := ⟨root, []⟩

/-- The package under a name. -/
def find? (workspace : Workspace α) (name : UnitName) : Option (Package α) :=
  NameMap.find? name workspace.packages

/-- The workspace with a package under a name. -/
def insert (workspace : Workspace α) (name : UnitName) (package : Package α) : Workspace α :=
  { workspace with packages := NameMap.insert name package workspace.packages }

/-- Sources by ascending path; among equal paths the order stays. -/
def sortByPath (sources : List (SourceUnit α)) : List (SourceUnit α) :=
  sources.mergeSort fun a b => (a.path.order b.path).isLE

/-- Every source of the workspace, by ascending path. -/
def sources (workspace : Workspace α) : List (SourceUnit α) :=
  sortByPath (workspace.packages.flatMap fun (_, package) => package.sources)

/-- How many sources the workspace holds. -/
def sourceCount (workspace : Workspace α) : Nat :=
  (workspace.packages.map fun (_, package) => package.sources.length).foldr (· + ·) 0

/-- The workspace with another model for each source. -/
def map (f : α → β) (workspace : Workspace α) : Workspace β :=
  ⟨workspace.root, workspace.packages.map fun (key, package) => (key, package.map f)⟩

/-- The module at a path of names: a directory package, then modules in modules. -/
def module? (workspace : Workspace α) : List UnitName → Option (Module α)
  | [] => none
  | name :: names =>
    match workspace.find? name with
    | some (.directory module) => module.descend? names
    | _ => none

/-- The workspace with `f` done to the module at a path of names. -/
def updateModule? (workspace : Workspace α) (f : Module α → Module α) :
    List UnitName → Option (Workspace α)
  | [] => none
  | name :: names =>
    match workspace.find? name with
    | some (.directory module) =>
      (module.update? f names).map fun module => workspace.insert name (.directory module)
    | _ => none

end Workspace

/-! ## Workspaces whose sources are scanned -/

/-- A source text and its scan. -/
structure LexedSource where
  contents : SourceText
  scan : Scan
  deriving DecidableEq, Repr

/-- A source text with its scan. -/
def LexedSource.ofText (contents : SourceText) : LexedSource := ⟨contents, contents.scan⟩

namespace Workspace

/-- Every source scanned. No source has a part in the scan of another. -/
def lex (workspace : Workspace SourceText) : Workspace LexedSource :=
  workspace.map LexedSource.ofText

/-- The sources whose scan met an error, by ascending path. -/
def failures (workspace : Workspace LexedSource) : List (SourceUnit LexedSource) :=
  workspace.sources.filter fun source => !source.model.scan.isOk

/-- How many lexemes all scans have together. -/
def lexemeCount (workspace : Workspace LexedSource) : Nat :=
  (workspace.sources.map fun source => source.model.scan.lexemes.length).foldr (· + ·) 0

end Workspace

end Lexis
