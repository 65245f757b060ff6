import Lexis.File.System
import Lexis.Workspace.Basic

/-!
# Loading sources from files

A directory is read entry by entry, in ascending order of the names. An entry that leads to a
directory becomes a module, unless nothing is found in it; an entry with the extension of sources
becomes a source; any other entry is left out, and so is a hidden one. The first fault ends the
loading.

- `LoadError`: what is wrong, and with which path; `LoadError.message` says it.
- `Text.dropReturns`: a text with its line endings normalised.
- `LoadOptions`: the extension of sources, and whether line endings are normalised.
- `FileSystem.readSource`: one source, whatever its extension.
- `addEntries`: what is found under the names in a directory, put together.
- `FileSystem.loadModule`, `FileSystem.loadEntry`: a directory, and any entry of one.
- `FileSystem.load`: the workspace below a root directory.
-/

namespace Lexis

/-! ## What can be wrong -/

/-- What is wrong with a workspace or a source. -/
inductive LoadError where
  /-- The file system has no answer for the path. -/
  | unreadable (path : Path) (fault : FileFault)
  /-- The root of a workspace is no directory. -/
  | notADirectory (path : Path)
  /-- The name that the path gives to a unit is not a valid one. -/
  | invalidName (path : Path) (cause : NameError)
  /-- The path gives no name, or one that is not UTF-8. -/
  | nonUtf8Name (path : Path)
  /-- Two entries give the same name. -/
  | duplicateName (name : UnitName) (first second : Path)
  deriving DecidableEq

namespace LoadError

/-- The path that the error is about, the later one of two. -/
def path : LoadError → Path
  | unreadable path _ => path
  | notADirectory path => path
  | invalidName path _ => path
  | nonUtf8Name path => path
  | duplicateName _ _ second => second

/-- What is wrong, in words. -/
def message : LoadError → String
  | unreadable path fault => fault.message path.display
  | notADirectory path => "`" ++ path.display ++ "` is not a directory"
  | invalidName path cause => "invalid name for `" ++ path.display ++ "`: " ++ cause.message
  | nonUtf8Name path => "`" ++ path.display ++ "` has a name that is not valid UTF-8"
  | duplicateName name first second =>
    "`" ++ first.display ++ "` and `" ++ second.display ++ "` both define `" ++ name.display ++ "`"

end LoadError

/-! ## Sources -/

/-- The text without the carriage returns that stand right before a newline. Any other carriage
return stays. -/
def Text.dropReturns : List Char → List Char
  | [] => []
  | c :: rest =>
    if c = '\r' ∧ rest.head? = some '\n' then dropReturns rest else c :: dropReturns rest

/-- Which files are sources, and how their text is taken. -/
structure LoadOptions where
  /-- The extension of sources. -/
  extension : List Char
  /-- Whether a carriage return right before a newline is left out. -/
  normalizeLineEndings : Bool
  deriving DecidableEq, Repr

/-- Sources have the extension `tr`, and their line endings are normalised. -/
def LoadOptions.standard : LoadOptions := ⟨['t', 'r'], true⟩

/-- Whether an entry is hidden: its name is UTF-8 and begins with a full stop. -/
def FileName.isHidden (name : FileName) : Bool :=
  match Text.Utf8.decode? name.bytes with
  | some (c :: _) => c == '.'
  | _ => false

namespace Path

/-- The name that a path gives to a unit, where `bytes` are the part of the path that says it. -/
def unitName (path : Path) (bytes : Option (List UInt8)) : Except LoadError UnitName :=
  match bytes.bind Text.Utf8.decode? with
  | none => .error (.nonUtf8Name path)
  | some text =>
    match UnitName.ofText text with
    | .ok name => .ok name
    | .error cause => .error (.invalidName path cause)

/-- Whether the path has the extension of sources. -/
def hasExtension (path : Path) (extension : List Char) : Bool :=
  path.extension?.bind Text.Utf8.decode? == some extension

end Path

namespace FileSystem

/-- The contents of a source, its line endings normalised if the options say so. -/
def readContents (files : FileSystem) (options : LoadOptions) (path : Path) :
    Except LoadError SourceText :=
  match files.readText path with
  | .error fault => .error (.unreadable path fault)
  | .ok text => .ok ⟨if options.normalizeLineEndings then Text.dropReturns text else text⟩

/-- The source at a path, called after the path's name without its extension. The name is looked at
before the file is. -/
def readSource (files : FileSystem) (options : LoadOptions) (path : Path) :
    Except LoadError (SourceUnit SourceText) :=
  match path.unitName path.stem? with
  | .error error => .error error
  | .ok name => (files.readContents options path).map (⟨path, name, ·⟩)

/-- The source at a path that has the extension of sources. -/
def loadSource (files : FileSystem) (options : LoadOptions) (path : Path) :
    Except LoadError (Option (SourceUnit SourceText)) :=
  if path.hasExtension options.extension then (files.readSource options path).map some
  else .ok none

/-- The names in a directory that are not hidden, ascending. -/
def visibleEntries (files : FileSystem) (path : Path) : Except LoadError (List FileName) :=
  match files.entries path with
  | .error fault => .error (.unreadable path fault)
  | .ok names => .ok (names.filter fun name => !name.isHidden)

end FileSystem

/-- The map with a value under a name that it does not have yet. -/
def NameMap.insertNew {β : Type} (pathOf : β → Path) (name : UnitName) (value : β)
    (values : NameMap β) : Except LoadError (NameMap β) :=
  match NameMap.find? name values with
  | some old => .error (.duplicateName name (pathOf old) (pathOf value))
  | none => .ok (NameMap.insert name value values)

/-- The module with what one entry of its directory holds. -/
def Module.addPackage {α : Type} : Module α → Package α → Except LoadError (Module α)
  | .mk path name sources submodules, .file source =>
    (NameMap.insertNew SourceUnit.path source.name source sources).map (.mk path name · submodules)
  | .mk path name sources submodules, .directory module =>
    (NameMap.insertNew Module.path module.name module submodules).map (.mk path name sources ·)

/-- The workspace with what one entry of its directory holds. -/
def Workspace.addPackage {α : Type} (workspace : Workspace α) (package : Package α) :
    Except LoadError (Workspace α) :=
  (NameMap.insertNew Package.path package.name package workspace.packages).map (⟨workspace.root, ·⟩)

/-- What is made of `found` by adding, one after the other, what `load` finds under some names. The
first error ends it. -/
def addEntries {σ : Type} (load : FileName → Except LoadError (Option (Package SourceText)))
    (add : σ → Package SourceText → Except LoadError σ) (found : σ) :
    List FileName → Except LoadError σ
  | [] => .ok found
  | name :: names =>
    match load name with
    | .error error => .error error
    | .ok none => addEntries load add found names
    | .ok (some package) =>
      match add found package with
      | .error error => .error error
      | .ok found => addEntries load add found names

namespace FileSystem

/-- The module of a directory, or nothing where no source is found in it. The path of an entry is
longer than its directory's, and none that leads to a directory reaches the limit. -/
def loadModule (files : FileSystem) (options : LoadOptions) (path : Path) :
    Except LoadError (Option (Module SourceText)) :=
  match path.unitName path.fileName? with
  | .error error => .error error
  | .ok name =>
    match files.visibleEntries path with
    | .error error => .error error
    | .ok names =>
      let load (name : FileName) : Except LoadError (Option (Package SourceText)) :=
        if _h : files.isDirectory (path.join name) = true then
          (files.loadModule options (path.join name)).map (Option.map .directory)
        else (files.loadSource options (path.join name)).map (Option.map .file)
      match addEntries load Module.addPackage (Module.empty path name) names with
      | .error error => .error error
      | .ok module => .ok (if module.isEmpty then none else some module)
  termination_by Path.lengthLimit - path.bytes.length
  decreasing_by
    have hlimit := length_lt_of_isDirectory _h
    have hjoin := path.length_lt_join name
    omega

/-- What an entry of a directory holds: the module of a directory, or the source of a file. -/
def loadEntry (files : FileSystem) (options : LoadOptions) (path : Path) :
    Except LoadError (Option (Package SourceText)) :=
  if files.isDirectory path then (files.loadModule options path).map (Option.map .directory)
  else (files.loadSource options path).map (Option.map .file)

/-- The workspace below a root directory. -/
def load (files : FileSystem) (options : LoadOptions) (root : Path) :
    Except LoadError (Workspace SourceText) :=
  if files.isDirectory root then
    match files.visibleEntries root with
    | .error error => .error error
    | .ok names =>
      addEntries (fun name => files.loadEntry options (root.join name)) Workspace.addPackage
        (Workspace.empty root) names
  else .error (.notADirectory root)

end FileSystem

end Lexis
