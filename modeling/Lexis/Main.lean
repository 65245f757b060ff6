import Lexis.Command.Line

/-!
# The program

The files that a command asks about are looked at first. What was found answers the command's
questions, and its answer is written out.

- `Observation`: what was found under each path.
- `main`: one run.
-/

namespace Lexis

/-- What was found under the paths that were looked at. -/
structure Observation where
  directories : List (Path × Except FileFault (List FileName))
  files : List (Path × Except FileFault (List UInt8))

namespace Observation

/-- The file system as far as it was looked at. -/
def fileSystem (seen : Observation) : FileSystem where
  leadsToDirectory path := (seen.directories.lookup path).isSome
  list path := (seen.directories.lookup path).getD (.error .missing)
  read path := (seen.files.lookup path).getD (.error .missing)

/-- The number of an error of the system, which some calls give negated. -/
def errorNumber (code : UInt32) : Nat := min code.toNat (UInt32.size - code.toNat)

/-- What an error of the system says about a path. -/
def faultOf : IO.Error → FileFault
  | .permissionDenied .. => .denied
  | .inappropriateType _ code _ => if errorNumber code = 20 then .notDirectory else .isDirectory
  | .invalidArgument _ code _ => if errorNumber code = 40 then .tooManyLinks else .nameTooLong
  | _ => .missing

/-- The outcome of an action, with what its error says. -/
def attempt {α : Type} (action : IO α) : IO (Except FileFault α) := do
  match ← action.toBaseIO with
  | .ok a => return .ok a
  | .error error => return .error (faultOf error)

/-- The observation with the bytes of a file. -/
def addFile (seen : Observation) (path : Path) : IO Observation := do
  let here ← IO.currentDir
  let bytes ← attempt (IO.FS.readBinFile (here / path.display))
  return { seen with files := (path, bytes.map ByteArray.toList) :: seen.files }

/-- The observation with a directory and all below it that can hold sources. -/
partial def addDirectory (seen : Observation) (options : LoadOptions) (path : Path) :
    IO Observation := do
  let here ← IO.currentDir
  let found ← attempt (here / path.display).readDir
  let names := found.map fun entries =>
    entries.toList.filterMap fun entry =>
      FileName.ofBytes? (Text.Utf8.encode entry.fileName.toList)
  let mut seen := { seen with directories := (path, names) :: seen.directories }
  for name in (names.toOption.getD []).filter (!·.isHidden) do
    let inner := path.join name
    if ← (here / inner.display).isDir then seen ← seen.addDirectory options inner
    else if inner.hasExtension options.extension then seen ← seen.addFile inner
  return seen

/-- What a command asks about. -/
def ofCommand : Command → IO Observation
  | .lex _ path => if path.bytes.isEmpty then return ⟨[], []⟩ else addFile ⟨[], []⟩ path
  | .check options root => do
    let here ← IO.currentDir
    if root.bytes.isEmpty || !(← (here / root.display).isDir) then return ⟨[], []⟩
    else addDirectory ⟨[], []⟩ options root
  | _ => return ⟨[], []⟩

end Observation

end Lexis

open Lexis in
/-- Runs the command that the arguments ask for. -/
def main (arguments : List String) : IO UInt32 := do
  let command := Command.ofArguments arguments
  let report := command.run (← Observation.ofCommand command).fileSystem
  (← IO.getStdout).putStr report.outText
  (← IO.getStderr).putStr report.errText
  return UInt32.ofNat report.status
