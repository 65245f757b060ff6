import Lexis.ScanError
import Lexis.Piece.Item
import Lexis.Piece.Digits
import Lexis.Source.Cursor

/-!
# The piece that a text begins with

A source text is read piece by piece. A piece is a gap, which carries no meaning, or a token; where
a construct begins that has no proper end, the piece is a fault. What the piece is depends on the
text ahead, never on what came before. At the end of a text the store goes on with one codepoint
more, which is null unless the text was cut off there. One rule reads it: the one for character
literals, which takes what follows its opening prime for a codepoint of the text.

- `Piece`: a gap, a token or a fault.
- `Piece.read?`: the piece that a text begins with. Gaps come first, then marks, then the literals,
  then words; a codepoint that begins none of them is a token by itself.
- `Piece.length_pos_of_read?`: every piece takes at least one codepoint.
-/

namespace Lexis

/-- What a text begins with. -/
inductive Piece where
  /-- A space or a comment. -/
  | gap (text : List Char)
  /-- A token and the text it covers. -/
  | token (kind : Kind) (text : List Char)
  /-- A construct without a proper end: the error lies `place` codepoints on, and `taken` codepoints
  had been read when it was found. -/
  | fault (cause : ScanError.Cause) (place taken : Nat)
  deriving DecidableEq, Repr

namespace Piece

/-- How many codepoints reading the piece passes over. -/
def length : Piece → Nat
  | gap text => text.length
  | token _ text => text.length
  | fault _ _ taken => taken

/-- The comment whose number sign is followed by `rest`. A block comment ends with its first
closing mark; any other comment ends with its line. -/
def comment (rest : List Char) : Piece :=
  match rest with
  | '\x7b' :: body =>
    match Text.throughFirst? ['\x7d', '#'] body with
    | some text => gap ('#' :: '\x7b' :: text)
    | none => fault .unterminatedBlockComment 0 (1 + rest.length)
  | _ => gap ('#' :: Text.throughNewline rest)

/-- The fault of a literal whose item cannot be read: `before` codepoints of the literal come
before the item, and `rest` is the text there. -/
def itemFault (form : Quoted) (before : Nat) (rest : List Char) : Item.Fault → Piece
  | .endOfText => fault (.unterminatedLiteral form) 0 (before + rest.length)
  | .newline => fault (.bareNewlineInLiteral form) before before
  | .digitCount digits => fault (.invalidEscapeDigitCount digits) before (before + 1 + digits)

/-- The character literal whose opening delimiter is followed by `rest`. Where this is all of the
text, `behind` is read as if it followed. -/
@[inline]
def character (rest : List Char) (behind : Char := '\x00') : Piece :=
  if rest.headD behind = '\'' then fault .emptyCharacterLiteral 0 1
  else
    match Item.read rest with
    | .error why => itemFault .character 1 rest why
    | .ok (item, after) =>
      if after.head? = some '\'' then token (.quoted .character) ('\'' :: (item.text ++ ['\'']))
      else fault (.unterminatedLiteral .character) 0 (1 + item.text.length)

/-- The items up to the delimiter that closes a string literal, or the text where an item cannot
be read, with the items before it. -/
def stringItems (s : List Char) : List Item × Option (Item.Fault × List Char) :=
  if s.head? = some '"' then ([], none)
  else
    match _h : Item.read s with
    | .error why => ([], some (why, s))
    | .ok (item, after) =>
      let (items, stop) := stringItems after
      (item :: items, stop)
  termination_by s.length
  decreasing_by exact Item.length_lt_of_read _h

/-- The string literal whose opening delimiter is followed by `rest`. -/
def string (rest : List Char) : Piece :=
  let (items, stop) := stringItems rest
  let text := items.flatMap Item.text
  match stop with
  | none => token (.quoted .string) ('"' :: (text ++ ['"']))
  | some (why, after) => itemFault .string (1 + text.length) after why

/-- The raw string literal whose opening delimiter is followed by `rest`. -/
def rawString (rest : List Char) : Piece :=
  match Text.throughFirst? ['\x60'] rest with
  | some text => token (.quoted .rawString) ('\x60' :: text)
  | none => fault (.unterminatedLiteral .rawString) 0 (1 + rest.length)

/-- The decimal literal that a text begins with. An `e` after the mantissa always begins an
exponent. -/
def decimal (s : List Char) : Piece :=
  let (mantissa, after) := Mantissa.read s
  match after with
  | [] => token .decimal mantissa
  | c :: rest =>
    if c = 'e' ∨ c = 'E' then
      match Digits.read? rest with
      | some (run, _) => token .decimal (mantissa ++ c :: run)
      | none => fault .missingExponentDigit (mantissa.length + 1) (mantissa.length + 1)
    else token .decimal mantissa

/-- The word that a text begins with: a run of ASCII letters. A keyword that is followed by an
underscore takes it in and is an identifier. -/
def word (s : List Char) : Piece :=
  let letters := s.takeWhile Char.isAlpha
  match Keyword.ofLetters? letters with
  | none => token .identifier letters
  | some keyword =>
    if (s.dropWhile Char.isAlpha).head? = some '_' then token .identifier (letters ++ ['_'])
    else token (.keyword keyword) letters

/-- The piece that a text begins with; there is none at the end of the text. The codepoint that is
stored behind the text is `behind`. -/
@[inline]
def read? (s : List Char) (behind : Char := '\x00') : Option Piece :=
  match s with
  | [] => none
  | c :: rest => some <|
    if c = ' ' then gap [c]
    else if c = '#' then comment rest
    else
      match Mark.atHead? (c :: rest) with
      | some mark => token (.mark mark) mark.text
      | none =>
        if c = '\'' then character rest behind
        else if c = '"' then string rest
        else if c = '\x60' then rawString rest
        else if c.isDigit then decimal (c :: rest)
        else if c.isAlpha then word (c :: rest)
        else token .unknown [c]

/-! ## Every piece takes something -/

theorem comment_length_pos (rest : List Char) : 0 < (comment rest).length := by
  unfold comment
  split
  · split <;> simp only [length, List.length_cons] <;> omega
  · simp [length]

theorem itemFault_length_pos (form : Quoted) {before : Nat} (hb : 0 < before)
    (rest : List Char) (why : Item.Fault) : 0 < (itemFault form before rest why).length := by
  cases why <;> simp only [itemFault, length] <;> omega

theorem character_length_pos (rest : List Char) (behind : Char) :
    0 < (character rest behind).length := by
  unfold character
  split
  · simp [length]
  · split
    · exact itemFault_length_pos _ Nat.one_pos _ _
    · split
      · simp [length]
      · simp only [length]
        omega

theorem string_length_pos (rest : List Char) : 0 < (string rest).length := by
  unfold string
  dsimp only
  split
  · simp [length]
  · exact itemFault_length_pos _ (by omega) _ _

theorem rawString_length_pos (rest : List Char) : 0 < (rawString rest).length := by
  unfold rawString
  split
  · simp [length]
  · simp only [length]
    omega

theorem decimal_length_pos {c : Char} (hc : c.isDigit = true) (rest : List Char) :
    0 < (decimal (c :: rest)).length := by
  have hm : 0 < (Mantissa.read (c :: rest)).1.length := by
    simp [Mantissa.read, Digits.read?, hc]
  unfold decimal
  dsimp only
  split
  · simpa [length] using hm
  · split
    · split <;> simp only [length, List.length_append] <;> omega
    · simpa [length] using hm

theorem word_length_pos {c : Char} (hc : c.isAlpha = true) (rest : List Char) :
    0 < (word (c :: rest)).length := by
  have hl : 0 < ((c :: rest).takeWhile Char.isAlpha).length := by simp [hc]
  unfold word
  dsimp only
  split
  · simpa [length] using hl
  · split
    · simp [length]
    · simpa [length] using hl

/-- Every piece takes at least one codepoint. -/
theorem length_pos_of_read? {s : List Char} {behind : Char} {piece : Piece}
    (h : read? s behind = some piece) : 0 < piece.length := by
  cases s with
  | nil => simp [read?] at h
  | cons c rest =>
    simp only [read?, Option.some.injEq] at h
    subst h
    split
    · simp [length]
    · split
      · exact comment_length_pos rest
      · split
        · next mark _ => exact Mark.text_length_pos mark
        · split
          · exact character_length_pos rest behind
          · split
            · exact string_length_pos rest
            · split
              · exact rawString_length_pos rest
              · split
                · next hc => exact decimal_length_pos hc rest
                · split
                  · next hc => exact word_length_pos hc rest
                  · simp [length]

end Piece

end Lexis
