import Lexis.Command.Report
import Lexis.Text.Escaped

/-!
# The command line

The first argument says what to do. What follows it are flags, which begin with a hyphen and of
which unknown ones mean nothing, and one path; further paths mean nothing either. A path with the
extension of sources may stand in place of a command.

- `FileSystem.lexFile`: the lexemes of a file, one a line below a heading, and the error that ends
  them, if one does.
- `FileSystem.check`: every source below a root directory is scanned; the errors are shown in the
  order of the paths, and a last line counts what was found.
- `Command`: what an argument list asks for; `Command.ofArguments` finds it.
- `Command.run`: what is reported on a command; `Report.status` is the exit status.
-/

namespace Lexis

/-! ## Listing the lexemes of a file -/

/-- How a file is read, and whether the listing says where lexemes stand. -/
structure LexOptions where
  spans : Bool
  load : LoadOptions
  deriving DecidableEq, Repr

/-- A listing without places, of a file that is read in the standard way. -/
def LexOptions.standard : LexOptions := ⟨false, LoadOptions.standard⟩

/-- A lexeme as a line: its kind, its text with escapes, and its span if asked for. -/
def Lexeme.display (spans : Bool) (lexeme : Lexeme) : String :=
  "  " ++ lexeme.kind.name ++ " '" ++ String.ofList (Text.escape lexeme.text) ++ "'"
    ++ (if spans then " @ " ++ lexeme.span.display else "")

/-- The heading and the lexemes of the source at a path, one a line. -/
def lexListing (spans : Bool) (path : Path) (lexemes : List Lexeme) : List String :=
  ("Lexemes for '" ++ path.display ++ "' (" ++ toString lexemes.length ++ " lexemes):")
    :: lexemes.map (Lexeme.display spans)

/-- The lexemes of a file up to the first error, and that error. -/
def FileSystem.lexFile (files : FileSystem) (options : LexOptions) (path : Path) : Report :=
  match files.readSource options.load path with
  | .error error => ⟨false, [], error.diagnostic⟩
  | .ok source =>
    let scan := source.model.scan
    let listing := lexListing options.spans path scan.lexemes
    match scan.error with
    | none => ⟨true, listing, []⟩
    | some error => ⟨false, listing, error.diagnostic path source.model⟩

/-! ## Checking a workspace -/

/-- A number and a noun, in the plural unless the number is one. -/
def counted (n : Nat) (noun : String) : String :=
  toString n ++ " " ++ noun ++ (if n = 1 then "" else "s")

/-- The line that counts what a workspace holds. -/
def Workspace.summary (workspace : Workspace LexedSource) : String :=
  counted workspace.sourceCount "source" ++ ", " ++ counted workspace.lexemeCount "lexeme" ++ ", "
    ++ counted workspace.failures.length "error"

/-- The error of a source and an empty line, and nothing for a source without one. -/
def SourceUnit.diagnostic (source : SourceUnit LexedSource) : List String :=
  match source.model.scan.error with
  | none => []
  | some error => error.diagnostic source.path source.model.contents ++ [""]

/-- Every source below a root directory scanned, with the error of each that has one. -/
def FileSystem.check (files : FileSystem) (options : LoadOptions) (root : Path) : Report :=
  match files.load options root with
  | .error error => ⟨false, [], error.diagnostic⟩
  | .ok workspace =>
    let lexed := workspace.lex
    ⟨lexed.failures.isEmpty, [lexed.summary], lexed.failures.flatMap SourceUnit.diagnostic⟩

/-! ## Commands -/

/-- What an argument list asks for. -/
inductive Command where
  | usage
  | version
  /-- List the lexemes of a file. -/
  | lex (options : LexOptions) (path : Path)
  /-- List the lexemes of no file. -/
  | lexNothing
  /-- Check the workspace below a directory. -/
  | check (options : LoadOptions) (root : Path)
  | unknown (name : String)

namespace Command

/-- Whether an argument is a flag. -/
def isFlag (argument : String) : Bool := argument.toList.head? == some '-'

/-- The first argument that is not a flag, as a path. -/
def firstPath? (arguments : List String) : Option Path :=
  (arguments.find? fun argument => !isFlag argument).map fun argument =>
    Path.ofText argument.toList

/-- Whether line endings are normalised: unless the arguments say to keep them. -/
def normalizes (arguments : List String) : Bool := !arguments.contains "--keep-crlf"

/-- What a flag that sets the extension of sources begins with. -/
def extensionFlag : List Char := "--extension=".toList

/-- The extension that an argument sets. -/
def extensionOf? (argument : String) : Option (List Char) :=
  if extensionFlag.isPrefixOf argument.toList then
    some (argument.toList.drop extensionFlag.length)
  else none

/-- The command to list lexemes, with the arguments after it. -/
def ofLexArguments (arguments : List String) : Command :=
  let spans := arguments.any fun argument => argument == "--spans" || argument == "-s"
  match firstPath? arguments with
  | none => lexNothing
  | some path => lex ⟨spans, { LoadOptions.standard with
      normalizeLineEndings := normalizes arguments }⟩ path

/-- The command to check a workspace, with the arguments after it. The last extension counts, and
without a path the current directory is checked. -/
def ofCheckArguments (arguments : List String) : Command :=
  let extension := (arguments.filterMap extensionOf?).getLastD LoadOptions.standard.extension
  let root := (firstPath? arguments).getD (Path.ofText ['.'])
  check ⟨extension, normalizes arguments⟩ root

/-- The bytes with each ASCII capital letter made small. -/
def lowerBytes (bytes : List UInt8) : List UInt8 :=
  bytes.map fun b => if 0x41 ≤ b ∧ b ≤ 0x5a then b + 0x20 else b

/-- Whether a path has the standard extension of sources, in any case. -/
def isSourcePath (path : Path) : Bool :=
  path.extension?.map lowerBytes == some (Text.Utf8.encode LoadOptions.standard.extension)

/-- What an argument list asks for. -/
def ofArguments : List String → Command
  | [] => usage
  | name :: arguments =>
    if name = "lex" then ofLexArguments arguments
    else if name = "check" then ofCheckArguments arguments
    else if name = "help" ∨ name = "--help" ∨ name = "-h" then usage
    else if name = "version" ∨ name = "--version" ∨ name = "-V" then version
    else if isSourcePath (Path.ofText name.toList) then
      lex LexOptions.standard (Path.ofText name.toList)
    else unknown name

/-- The lines that explain the command line. -/
def usageLines : List String :=
  ["Thrice compiler",
    "",
    "Usage: thrice <command> [options]",
    "",
    "Commands:",
    "  lex <file.tr>        Tokenize a file and display its lexemes",
    "  check [dir]          Lex every source of a workspace (default: current directory)",
    "  help                 Show this help message",
    "  version              Show version information",
    "",
    "Lex options:",
    "  --spans, -s          Show the span of each lexeme",
    "",
    "Check options:",
    "  --extension=<ext>    Source file extension (default: tr)",
    "",
    "Common options:",
    "  --keep-crlf          Do not normalize CRLF line endings",
    "",
    "Examples:",
    "  thrice lex main.tr",
    "  thrice lex main.tr --spans",
    "  thrice check",
    "  thrice check src/",
    "  thrice main.tr                  # Same as `thrice lex main.tr`"]

/-- The line that tells the version. -/
def versionLine : String := "thrice 0.1.0"

/-- What is reported on a command. -/
def run (files : FileSystem) : Command → Report
  | usage => ⟨true, usageLines, []⟩
  | version => ⟨true, [versionLine], []⟩
  | lex options path => files.lexFile options path
  | lexNothing => ⟨false, [], ["Usage: thrice lex <file.tr> [--spans]"]⟩
  | check options root => files.check options root
  | unknown name => ⟨false, usageLines, ["Unknown command: " ++ name, ""]⟩

end Command

/-- The exit status of a command: zero for success, one for failure. -/
def Report.status (report : Report) : Nat := if report.success then 0 else 1

end Lexis
