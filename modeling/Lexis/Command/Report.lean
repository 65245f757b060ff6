import Lexis.Source.LineTable
import Lexis.Workspace.Load

/-!
# What commands report

A command writes out lines, and says other lines about errors. The error of a scan is said with the
line of the source that it is in and a caret below the column.

- `Text.unlines`, `Text.spaces`: lines as one text, and a number of spaces.
- `Report`: whether the command found everything in order, and the lines of its two outputs.
- `ScanError.diagnostic`: the error of a scan, in six lines.
- `LoadError.diagnostic`: an error of loading, in one line.
-/

namespace Lexis

namespace Text

/-- Lines as one text, with a newline after each. -/
def unlines (lines : List String) : String :=
  String.join (lines.map fun line => line ++ "\n")

/-- A number of spaces. -/
def spaces (n : Nat) : String := String.ofList (List.replicate n ' ')

end Text

/-- The outcome of a command and the lines of its two outputs. -/
structure Report where
  success : Bool
  out : List String
  err : List String
  deriving DecidableEq, Repr

/-- What the command writes out. -/
def Report.outText (report : Report) : String := Text.unlines report.out

/-- What the command says about errors. -/
def Report.errText (report : Report) : String := Text.unlines report.err

/-- The error of a scan. The bars stand below each other, as far from the margin as the line's
number is long, and the caret stands below the codepoint at the error's column. -/
def ScanError.diagnostic (error : ScanError) (path : Path) (contents : SourceText) : List String :=
  let place := error.location
  let number := toString place.line
  let gutter := Text.spaces number.length
  ["error: " ++ error.message,
    gutter ++ "--> " ++ path.display ++ ":" ++ place.display,
    gutter ++ " |",
    number ++ " | " ++ String.ofList (contents.line place.line),
    gutter ++ " | " ++ Text.spaces (place.column - 1) ++ "^",
    gutter ++ " = help: " ++ error.help]

/-- An error of loading. -/
def LoadError.diagnostic (error : LoadError) : List String := ["error: " ++ error.message]

end Lexis
