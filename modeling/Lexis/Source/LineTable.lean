import Lexis.Source.Text

/-!
# The lines of a source text

A line ends right before a newline, or at the end of the text, so a text with `n` newlines has
`n + 1` lines. Lines are numbered from one.

- `LineTable`: where the lines of a text start, and how long the text is.
- `LineTable.start?`, `LineTable.stop?`: the offsets that bound a line, newline excluded.
- `SourceText.line`: the text of a line.
-/

namespace Lexis

/-- Where each line of a text starts, first line first, and the text's length. -/
structure LineTable where
  starts : List Nat
  length : Nat
  deriving DecidableEq, Repr

/-- The offsets right after each newline of a text that stands at `offset`. -/
def offsetsAfterNewlines (offset : Nat) : List Char → List Nat
  | [] => []
  | c :: rest =>
    if c = '\n' then (offset + 1) :: offsetsAfterNewlines (offset + 1) rest
    else offsetsAfterNewlines (offset + 1) rest

/-- The lines of a text: one starts at the text's start and one after each newline. -/
def SourceText.lineTable (source : SourceText) : LineTable :=
  ⟨0 :: offsetsAfterNewlines 0 source.chars, source.length⟩

namespace LineTable

/-- The offset where a line starts, for the lines the text has. -/
def start? (lines : LineTable) : Nat → Option Nat
  | 0 => none
  | n + 1 => lines.starts[n]?

/-- The offset where a line ends: before the newline that the next line follows, or at the end of
the text. -/
def stop? (lines : LineTable) (line : Nat) : Option Nat :=
  match lines.start? line with
  | none => none
  | some first =>
    match lines.starts[line]? with
    | some next => some (max (next - 1) first)
    | none => some (max lines.length first)

end LineTable

/-- The text of a line without its newline, and nothing for a line the text does not have. -/
def SourceText.line (source : SourceText) (line : Nat) : List Char :=
  match source.lineTable.start? line, source.lineTable.stop? line with
  | some first, some last => source.slice first last
  | _, _ => []

end Lexis
