import Lexis.Source.Text

/-!
# Reading a source text forwards

A cursor is a place in a text together with the text that is still ahead. It only moves forwards,
one codepoint or one run at a time, and it stays where it is at the end of the text. A copy of a
cursor is a place to come back to.

- `Text.throughFirst?`, `Text.throughNewline`: the beginning of a text up to a mark, and up to a
  newline.
- `Cursor`: the text, the place, and what is ahead.
- `Cursor.skip`: the one way to move. Every other operation says how far.
- `eat…` operations: move over what they name and tell whether, or how far, they moved.
- `Cursor.sliceFrom?`: the text between an earlier offset and the cursor.
-/

namespace Lexis

namespace Text

/-- The beginning of `text` that ends with the first occurrence of `mark`, or `none` where `mark`
does not occur. The empty mark occurs before every codepoint, so not in the empty text. -/
def throughFirst? (mark : List Char) : List Char → Option (List Char)
  | [] => none
  | c :: rest =>
    if mark.isPrefixOf (c :: rest) then some mark
    else (throughFirst? mark rest).map (c :: ·)

/-- The beginning of a text up to and with its first newline, or all of it. -/
def throughNewline : List Char → List Char
  | [] => []
  | c :: rest => if c = '\n' then [c] else c :: throughNewline rest

end Text

/-- A place in a text and the text ahead of it. -/
structure Cursor where
  source : SourceText
  location : Location
  rest : List Char
  deriving DecidableEq, Repr

/-- The cursor before the first codepoint. -/
def SourceText.cursor (source : SourceText) : Cursor :=
  ⟨source, Location.start, source.chars⟩

namespace Cursor

/-- The offset of the cursor. -/
def position (cursor : Cursor) : Nat := cursor.location.offset

/-- Whether nothing is ahead. -/
def atEnd (cursor : Cursor) : Bool := cursor.rest.isEmpty

/-- The codepoint ahead, and at the end of the text what is stored behind it. -/
def current (cursor : Cursor) : Char := cursor.rest.headD cursor.source.behind

/-- Moves over the next `n` codepoints, or to the end where fewer are ahead. -/
def skip (cursor : Cursor) (n : Nat) : Cursor :=
  { cursor with
    location := cursor.location.after (cursor.rest.take n)
    rest := cursor.rest.drop n }

/-- Moves over one codepoint. -/
def advance (cursor : Cursor) : Cursor := cursor.skip 1

/-- Moves over the codepoint ahead if it satisfies `p`. -/
def eatIf (cursor : Cursor) (p : Char → Bool) : Bool × Cursor :=
  if cursor.rest.head?.any p then (true, cursor.advance) else (false, cursor)

/-- Moves over the codepoint ahead if it is `c`. -/
def eat (cursor : Cursor) (c : Char) : Bool × Cursor := cursor.eatIf (· == c)

/-- Moves over the longest run ahead whose codepoints satisfy `p`, and tells its length. -/
def eatWhile (cursor : Cursor) (p : Char → Bool) : Nat × Cursor :=
  let run := cursor.rest.takeWhile p
  (run.length, cursor.skip run.length)

/-- Whether the text ahead begins with `text`. -/
def startsWith (cursor : Cursor) (text : List Char) : Bool := text.isPrefixOf cursor.rest

/-- Moves over `text` if the text ahead begins with it. -/
def eatText (cursor : Cursor) (text : List Char) : Bool × Cursor :=
  if cursor.startsWith text then (true, cursor.skip text.length) else (false, cursor)

/-- Moves over the rest of the line, its newline included. -/
def eatLine (cursor : Cursor) : Cursor :=
  cursor.skip (Text.throughNewline cursor.rest).length

/-- Moves over the first occurrence of `mark` ahead and all before it, or to the end of the text
where `mark` does not occur. -/
def eatThrough (cursor : Cursor) (mark : List Char) : Bool × Cursor :=
  match Text.throughFirst? mark cursor.rest with
  | some text => (true, cursor.skip text.length)
  | none => (false, cursor.skip cursor.rest.length)

/-- The text from offset `first` to the cursor. There is none where `first` lies ahead. -/
def sliceFrom? (cursor : Cursor) (first : Nat) : Option (List Char) :=
  if first ≤ cursor.position then some (cursor.source.slice first cursor.position) else none

@[simp] theorem rest_skip (cursor : Cursor) (n : Nat) :
    (cursor.skip n).rest = cursor.rest.drop n := rfl

@[simp] theorem location_skip (cursor : Cursor) (n : Nat) :
    (cursor.skip n).location = cursor.location.after (cursor.rest.take n) := rfl

@[simp] theorem source_skip (cursor : Cursor) (n : Nat) :
    (cursor.skip n).source = cursor.source := rfl

end Cursor

end Lexis
