import Lexis.File.System

/-!
# Trees of files

A tree of directories, files and symbolic links, with one directory in it as the place that relative
paths start from. A path is followed step by step; a link puts the steps of its target before the
ones still to go, and at most forty links are followed.

- `FileNode`, `Directory`: the tree.
- `Place`: a directory together with those it lies in.
- `Place.walk`, `Place.follow`: where steps lead, up to a link and through links.
- `Place.fileSystem`: the file system that is seen from a place.
- `Directory.insert`: a tree with one more entry.
-/

namespace Lexis

/-- What a directory holds under a name. -/
inductive FileNode where
  | file (contents : List UInt8)
  | link (target : Path)
  | directory (entries : List (FileName × FileNode))

/-- A directory, as its entries in any order. -/
abbrev Directory := List (FileName × FileNode)

namespace Directory

/-- What a directory holds under the name with these bytes. -/
def find? (bytes : List UInt8) : Directory → Option FileNode
  | [] => none
  | (name, node) :: rest => if name.bytes = bytes then some node else find? bytes rest

/-- The directory with `node` under a name, in place of what was there. -/
def put (name : FileName) (node : FileNode) : Directory → Directory
  | [] => [(name, node)]
  | (other, old) :: rest =>
    if other = name then (name, node) :: rest else (other, old) :: put name node rest

/-- The directory with `node` at the end of a path of names. Directories are made on the way where
there are none. -/
def insert (node : FileNode) : List FileName → Directory → Directory
  | [], entries => entries
  | [name], entries => put name node entries
  | name :: next :: more, entries =>
    let inner :=
      match find? name.bytes entries with
      | some (.directory inner) => inner
      | _ => []
    put name (.directory (insert node (next :: more) inner)) entries

end Directory

/-- A directory and the directories that it lies in, the nearest first. -/
structure Place where
  here : Directory
  above : List Directory

namespace Place

/-- The directory that a place lies in; the outermost directory lies in itself. -/
def parent (place : Place) : Place :=
  match place.above with
  | [] => place
  | outer :: above => ⟨outer, above⟩

/-- The outermost directory of a place. -/
def root (place : Place) : Place := ⟨place.above.getLastD place.here, []⟩

/-- The directory `inner` of a place. -/
def enter (place : Place) (inner : Directory) : Place := ⟨inner, place.here :: place.above⟩

/-- Where a path leads. -/
inductive Target where
  | directory (place : Place)
  | file (contents : List UInt8)

/-- How many bytes a name may have. -/
def nameLimit : Nat := 255

/-- Where steps lead from `target`. At a link `onLink` says where its place and the steps of its
target, with those still to go after them, lead. -/
def walk (onLink : Place → List Component → Except FileFault Target) (target : Target) :
    List Component → Except FileFault Target
  | [] => .ok target
  | step :: steps =>
    match target, step with
    | .file _, _ => .error .notDirectory
    | .directory place, .root => walk onLink (.directory place.root) steps
    | .directory place, .here => walk onLink (.directory place) steps
    | .directory place, .parent => walk onLink (.directory place.parent) steps
    | .directory place, .name bytes =>
      if nameLimit < bytes.length then .error .nameTooLong
      else
        match place.here.find? bytes with
        | none => .error .missing
        | some (.file contents) => walk onLink (.file contents) steps
        | some (.directory inner) => walk onLink (.directory (place.enter inner)) steps
        | some (.link path) => onLink place (path.steps ++ steps)

/-- Where steps lead from a place if at most `links` links may be followed. -/
def follow : Nat → Place → List Component → Except FileFault Target
  | 0, place => walk (fun _ _ => .error .tooManyLinks) (.directory place)
  | links + 1, place => walk (follow links) (.directory place)

/-- How many links may be followed on the way to a file. -/
def linkLimit : Nat := 40

/-- Where a path leads from a place. The empty path leads nowhere. -/
def lookup (place : Place) (path : Path) : Except FileFault Target :=
  if path.bytes.isEmpty then .error .missing
  else follow linkLimit place path.steps

/-- The file system that is seen from a place. -/
def fileSystem (place : Place) : FileSystem where
  leadsToDirectory path :=
    match place.lookup path with
    | .ok (.directory _) => true
    | _ => false
  list path :=
    match place.lookup path with
    | .ok (.directory found) => .ok (found.here.map Prod.fst)
    | .ok (.file _) => .error .notDirectory
    | .error fault => .error fault
  read path :=
    match place.lookup path with
    | .ok (.directory _) => .error .isDirectory
    | .ok (.file contents) => .ok contents
    | .error fault => .error fault

end Place

end Lexis
