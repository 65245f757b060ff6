import Lexis.File.Path

/-!
# What is asked of a file system

Sources are found and read through three questions: whether a path leads to a directory, what a
directory holds, and what bytes a file holds. Each path that is asked about has at most 4095 bytes
and none of them null; longer paths and paths with a null byte lead nowhere.

- `FileFault`: why a question has no answer; `FileFault.message` says it.
- `FileSystem`: the three questions.
- `FileSystem.isDirectory`, `FileSystem.entries`, `FileSystem.readText`: the questions for any path,
  and what they say about text.
-/

namespace Lexis

/-- Why a path cannot be read. -/
inductive FileFault where
  /-- Nothing has the path. -/
  | missing
  /-- The path has a null byte. -/
  | nullInPath
  /-- A directory stands where a file is read. -/
  | isDirectory
  /-- A file stands where a directory is passed through. -/
  | notDirectory
  /-- More than forty links had to be followed. -/
  | tooManyLinks
  /-- The path, or a name in it, is too long. -/
  | nameTooLong
  /-- The file may not be read. -/
  | denied
  /-- The file is not UTF-8. -/
  | notUtf8
  deriving DecidableEq, Repr

/-- Why the file with the displayed path cannot be read, in words. -/
def FileFault.message (path : String) : FileFault → String
  | missing => "cannot find '" ++ path ++ "'"
  | denied => "permission denied reading '" ++ path ++ "'"
  | notUtf8 => "'" ++ path ++ "' contains invalid UTF-8 data"
  | nullInPath =>
    "error reading '" ++ path ++ "': file name contained an unexpected NUL byte"
  | isDirectory => "error reading '" ++ path ++ "': Is a directory (os error 21)"
  | notDirectory => "error reading '" ++ path ++ "': Not a directory (os error 20)"
  | tooManyLinks =>
    "error reading '" ++ path ++ "': Too many levels of symbolic links (os error 40)"
  | nameTooLong => "error reading '" ++ path ++ "': File name too long (os error 36)"

/-- The answers of a file system for paths without null bytes and of at most 4095 bytes. -/
structure FileSystem where
  /-- Whether the path leads to a directory, links followed. -/
  leadsToDirectory : Path → Bool
  /-- The names in a directory, in any order. -/
  list : Path → Except FileFault (List FileName)
  /-- The bytes of a file, links followed. -/
  read : Path → Except FileFault (List UInt8)

/-- The number of bytes that no path may reach. -/
def Path.lengthLimit : Nat := 4096

/-- Why nothing can be asked about a path. -/
def Path.fault? (path : Path) : Option FileFault :=
  if path.bytes.contains 0 then some .nullInPath
  else if Path.lengthLimit ≤ path.bytes.length then some .nameTooLong
  else none

namespace FileSystem

/-- Whether a path leads to a directory. -/
def isDirectory (files : FileSystem) (path : Path) : Bool :=
  path.fault?.isNone && files.leadsToDirectory path

/-- A path that leads to a directory is short of the limit. -/
theorem length_lt_of_isDirectory {files : FileSystem} {path : Path}
    (h : files.isDirectory path = true) : path.bytes.length < Path.lengthLimit := by
  simp only [isDirectory, Path.fault?, Bool.and_eq_true] at h
  obtain ⟨h, -⟩ := h
  split at h
  · simp at h
  · split at h
    · simp at h
    · omega

/-- The names in a directory, ascending. -/
def entries (files : FileSystem) (path : Path) : Except FileFault (List FileName) :=
  match path.fault? with
  | some fault => .error fault
  | none => (files.list path).map (·.mergeSort fun a b => (a.order b).isLE)

/-- The text of a file. -/
def readText (files : FileSystem) (path : Path) : Except FileFault (List Char) :=
  match path.fault? with
  | some fault => .error fault
  | none =>
    match files.read path with
    | .error fault => .error fault
    | .ok bytes =>
      match Text.Utf8.decode? bytes with
      | some text => .ok text
      | none => .error .notUtf8

end FileSystem

end Lexis
