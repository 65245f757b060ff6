import Lexis.Source.Location

/-!
# The text of one source

A source text is a finite sequence of codepoints. Every offset into it counts codepoints, and any
codepoint may occur, the null codepoint too. Offsets are words of 32 bits, so a text ends where no
word can count on: whatever was decoded beyond that is kept, and out of reach.

- `SourceText`: a source text, with all that was decoded.
- `SourceText.chars`: the codepoints of the text, and `SourceText.behind`, what is stored right
  behind them.
- `SourceText.IsWhole`: nothing that was decoded is out of reach.
- `SourceText.slice`: the codepoints between two offsets, both clamped to the text.
- `SourceText.locationAt`: the place of an offset, counted from the start of the text.
- `SourceText.locationAt_eq`: it is the place that passing over the text up to there leads to.
-/

namespace Lexis

/-- A source text, as the codepoints that were decoded. -/
structure SourceText where
  stored : List Char
  deriving DecidableEq, Repr

namespace SourceText

/-- The codepoints of a string. -/
def ofString (s : String) : SourceText := ⟨s.toList⟩

/-- How many codepoints a text has at most: as many as the greatest word of 32 bits says. -/
def maxLength : Nat := 4294967295

/-- The codepoints of the text. What was decoded beyond the greatest length is out of reach. -/
def chars (source : SourceText) : List Char := source.stored.take maxLength

/-- What is stored right behind the text: the null codepoint that closes every store, or else the
first codepoint out of reach. -/
def behind (source : SourceText) : Char := source.stored.getD maxLength '\x00'

/-- All that was decoded is within reach. -/
def IsWhole (source : SourceText) : Prop := source.stored.length ≤ maxLength

instance (source : SourceText) : Decidable source.IsWhole :=
  inferInstanceAs (Decidable (source.stored.length ≤ maxLength))

/-- How many codepoints the text has. -/
def length (source : SourceText) : Nat := source.chars.length

/-- Whether the text has no codepoint. -/
def isEmpty (source : SourceText) : Bool := source.chars.isEmpty

/-- The codepoints from offset `first` up to, and without, `last`. Offsets beyond the text stand
for its end, and a `first` beyond `last` gives nothing. -/
def slice (source : SourceText) (first last : Nat) : List Char :=
  (source.chars.take last).drop first

/-- The whole text as a string. -/
def display (source : SourceText) : String := String.ofList source.chars

/-- A one-line description that tells the length and not the text. -/
def summary (source : SourceText) : String :=
  "SourceBuffer \x7b len: " ++ toString source.length ++ ", .. \x7d"

/-- The line and column right after a text, counted on from those before it. -/
def recount (line column : Nat) : List Char → Nat × Nat
  | [] => (line, column)
  | c :: rest => if c = '\n' then recount (line + 1) 1 rest else recount line (column + 1) rest

/-- The place of an offset, found by reading the text from its start. An offset beyond the text has
the place of the text's end. -/
def locationAt (source : SourceText) (offset : Nat) : Location :=
  let (line, column) := recount 1 1 (source.slice 0 offset)
  ⟨min offset source.length, line, column⟩

/-- The codepoints that a span covers. -/
def contents (source : SourceText) (span : Span) : List Char :=
  source.slice span.first.offset span.last.offset

/-! ## Places -/

/-- **A recount finds the place that reading on leads to.** -/
theorem after_eq_recount (place : Location) (text : List Char) :
    place.after text = ⟨place.offset + text.length, (recount place.line place.column text).1,
      (recount place.line place.column text).2⟩ := by
  induction text generalizing place with
  | nil => rfl
  | cons c text ih =>
    rw [Location.after_cons, ih, Location.step, recount, List.length_cons]
    split
    all_goals rw [Nat.add_assoc, Nat.add_comm 1]

theorem locationAt_eq (source : SourceText) (offset : Nat) :
    source.locationAt offset = Location.start.after (source.chars.take offset) := by
  have hslice : source.slice 0 offset = source.chars.take offset := List.drop_zero
  rw [after_eq_recount, List.length_take, locationAt, hslice]
  show _ = Location.mk (0 + min offset source.length) _ _
  rw [Nat.zero_add]
  rfl

/-! ## Whole texts -/

variable {source : SourceText}

theorem length_le (source : SourceText) : source.length ≤ maxLength :=
  List.length_take_le maxLength source.stored

theorem chars_mk {text : List Char} (h : text.length ≤ maxLength) :
    (mk text).chars = text :=
  List.take_of_length_le h

theorem IsWhole.chars_eq (h : source.IsWhole) : source.chars = source.stored := chars_mk h

/-- Behind a text that is whole there is the null codepoint. -/
theorem IsWhole.behind_eq (h : source.IsWhole) : source.behind = '\x00' :=
  (List.getD_eq_getElem?_getD ..).trans (congrArg (Option.getD · _) (List.getElem?_eq_none h))

/-- The text that has just the codepoints of another one is whole. -/
theorem isWhole_mk_chars (source : SourceText) : (mk source.chars).IsWhole := source.length_le

/-! ## Texts that are cut off -/

variable {text : List Char}

/-- Nothing behind a text of the greatest length is within reach. -/
theorem chars_mk_append (h : text.length = maxLength) (more : List Char) :
    (mk (text ++ more)).chars = text :=
  List.take_left' h

theorem behind_mk_append (h : text.length = maxLength) (c : Char) (more : List Char) :
    (mk (text ++ c :: more)).behind = c := by
  rw [behind, List.getD_eq_getElem?_getD, List.getElem?_append_right (Nat.le_of_eq h), h,
    Nat.sub_self]
  rfl

end SourceText

end Lexis
