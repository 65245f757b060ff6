/-!
# Places in a text

A place is counted from the start of a text: how many codepoints come before it, and which line and
column of the page it falls on. Lines and columns count from one, and a column starts again after
every newline.

- `Location`: offset, line and column of one place.
- `Location.step`, `Location.after`: the place one codepoint, or a whole text, further on.
- `Location.order`: places compare by offset, then line, then column.
- `Span`: the stretch between two places, the second one excluded.
-/

namespace Lexis

/-- A place in a text: the codepoints before it, its line and its column. -/
structure Location where
  offset : Nat
  line : Nat
  column : Nat
  deriving DecidableEq, Repr

namespace Location

/-- The place before the first codepoint of a text. -/
def start : Location := ⟨0, 1, 1⟩

/-- The place with every count zero, which is no place of a text: lines count from one. -/
def blank : Location := ⟨0, 0, 0⟩

/-- The place right after a codepoint: a newline opens the next line, any other codepoint takes one
column. -/
def step (place : Location) (c : Char) : Location :=
  if c = '\n' then ⟨place.offset + 1, place.line + 1, 1⟩
  else ⟨place.offset + 1, place.line, place.column + 1⟩

/-- The place right after a text. -/
def after (place : Location) (text : List Char) : Location :=
  text.foldl step place

@[simp] theorem after_nil (place : Location) : place.after [] = place := rfl

@[simp] theorem after_cons (place : Location) (c : Char) (text : List Char) :
    place.after (c :: text) = (place.step c).after text := rfl

/-- Passing over two texts is passing over the first, then the second. -/
theorem after_append (place : Location) (s t : List Char) :
    place.after (s ++ t) = (place.after s).after t :=
  List.foldl_append

/-- Places compare by offset, then by line, then by column. -/
def order (a b : Location) : Ordering :=
  (compare a.offset b.offset).then ((compare a.line b.line).then (compare a.column b.column))

/-- A place is shown to readers as its line and column. -/
def display (place : Location) : String :=
  toString place.line ++ ":" ++ toString place.column

end Location

/-- The stretch of text from `first` up to, and without, `last`. -/
structure Span where
  first : Location
  last : Location
  deriving DecidableEq, Repr

/-- A span is shown as its two places. -/
def Span.display (span : Span) : String :=
  span.first.display ++ "-" ++ span.last.display

end Lexis
