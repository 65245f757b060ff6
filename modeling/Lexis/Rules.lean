import Lexis.Lexeme

/-!
# The rules of scanning, move by move

A scanner holds one cursor. Every rule asks what is ahead of the cursor, moves it over what fits,
and comes to a kind, or to an error, where the cursor then stands. The piece ahead of a cursor says
the same without moves.

- `Cursor.skipGap`: the rules for gaps.
- `Cursor.characterLiteral`, `Cursor.stringLiteral`, `Cursor.rawStringLiteral`,
  `Cursor.decimalLiteral`, `Cursor.word`, `Cursor.eatMark`: one rule for each form of token.
- `Cursor.scanToken`: the first rule that applies.
- `Cursor.scanNext`: the next lexeme or error ahead.
-/

namespace Lexis.Cursor

variable {cursor after : Cursor}

/-! ## Gaps -/

/-- A comment goes on to its closing mark, or to the end of its line. -/
def skipComment (cursor : Cursor) : Except ScanError Bool × Cursor :=
  match cursor.eat '#' with
  | (false, same) => (.ok false, same)
  | (true, sign) =>
    match sign.eat '\x7b' with
    | (true, brace) =>
      match brace.eatThrough ['\x7d', '#'] with
      | (true, after) => (.ok true, after)
      | (false, stop) => (.error ⟨.unterminatedBlockComment, cursor.location⟩, stop)
    | (false, sign) => (.ok true, sign.eatLine)

/-- A space or a comment, and whether there was one. -/
def skipGap (cursor : Cursor) : Except ScanError Bool × Cursor :=
  match cursor.eat ' ' with
  | (true, after) => (.ok true, after)
  | (false, same) => same.skipComment

/-! ## Quoted literals -/

/-- One item of a literal that was opened at a place. -/
def escapedCharacter (form : Quoted) (opener : Location) (cursor : Cursor) :
    Except ScanError Unit × Cursor :=
  if cursor.atEnd then (.error ⟨.unterminatedLiteral form, opener⟩, cursor)
  else if cursor.current = '\n' then
    (.error ⟨.bareNewlineInLiteral form, cursor.location⟩, cursor)
  else if cursor.current = '\\' then
    let escape := cursor.advance
    if escape.atEnd then (.error ⟨.unterminatedLiteral form, opener⟩, escape)
    else
      match escape.eatIf Item.isEscapable with
      | (true, after) => (.ok (), after)
      | (false, escape) =>
        -- the whole run is taken before its length is looked at
        let (digits, after) := escape.eatWhile Text.isHexDigit
        if 1 ≤ digits ∧ digits ≤ 8 then (.ok (), after)
        else (.error ⟨.invalidEscapeDigitCount digits, cursor.location⟩, after)
  else (.ok (), cursor.advance)

/-- A character literal: one item, and a closing prime. -/
def characterLiteral (cursor : Cursor) : Except ScanError Kind × Cursor :=
  let inside := cursor.advance
  if inside.current = '\'' then (.error ⟨.emptyCharacterLiteral, cursor.location⟩, inside)
  else
    match inside.escapedCharacter .character cursor.location with
    | (.error error, stop) => (.error error, stop)
    | (.ok (), item) =>
      match item.eat '\'' with
      | (true, after) => (.ok (.quoted .character), after)
      | (false, stop) => (.error ⟨.unterminatedLiteral .character, cursor.location⟩, stop)

/-- A cursor that finds another codepoint ahead stays. -/
theorem eq_of_eatIf {p : Char → Bool} (h : cursor.eatIf p = (false, after)) : after = cursor := by
  rw [eatIf] at h
  split at h
  · cases h
  · exact (Prod.mk.inj h).2.symm

theorem length_rest_skip_le (cursor : Cursor) (n : Nat) :
    (cursor.skip n).rest.length ≤ cursor.rest.length := by
  rw [rest_skip, List.length_drop]
  exact Nat.sub_le _ _

/-- A codepoint that was moved over is no longer ahead. -/
theorem length_rest_lt_of_eatIf {p : Char → Bool} (h : cursor.eatIf p = (true, after)) :
    after.rest.length < cursor.rest.length := by
  rw [eatIf] at h
  split at h
  next hc =>
    obtain rfl := (Prod.mk.inj h).2
    cases hrest : cursor.rest with
    | nil =>
      rw [hrest] at hc
      cases hc
    | cons c rest =>
      rw [advance, rest_skip, hrest]
      exact Nat.lt_succ_self _
  · cases h

/-- An item takes something. -/
theorem length_rest_lt_of_escapedCharacter {form : Quoted} {opener : Location}
    (h : cursor.escapedCharacter form opener = (.ok (), after)) :
    after.rest.length < cursor.rest.length := by
  cases hrest : cursor.rest with
  | nil =>
    rw [escapedCharacter, if_pos (by rw [atEnd, hrest]; rfl)] at h
    cases h
  | cons c rest =>
    have hlater (n : Nat) : (cursor.advance.skip n).rest.length < (c :: rest).length := by
      refine Nat.lt_of_le_of_lt (cursor.advance.length_rest_skip_le n) ?_
      rw [advance, rest_skip, hrest]
      exact Nat.lt_succ_self _
    rw [escapedCharacter, if_neg (by rw [atEnd, hrest]; exact Bool.false_ne_true)] at h
    split at h
    · cases h
    · split at h
      · -- an escape goes on behind its backslash
        dsimp only at h
        split at h
        · cases h
        · split at h
          next heat =>
            obtain rfl := (Prod.mk.inj h).2
            exact Nat.lt_trans (length_rest_lt_of_eatIf heat) (hlater 0)
          next heat =>
            obtain rfl := eq_of_eatIf heat
            split at h
            · obtain rfl := (Prod.mk.inj h).2
              exact hlater _
            · cases h
      · obtain rfl := (Prod.mk.inj h).2
        exact hlater 0

/-- The items of a string literal that was opened at a place, up to its closing quote. -/
def stringItems (opener : Location) (cursor : Cursor) : Except ScanError Kind × Cursor :=
  match cursor.eat '"' with
  | (true, after) => (.ok (.quoted .string), after)
  | (false, _) =>
    match _h : cursor.escapedCharacter .string opener with
    | (.error error, stop) => (.error error, stop)
    | (.ok (), item) => item.stringItems opener
  termination_by cursor.rest.length
  decreasing_by exact length_rest_lt_of_escapedCharacter _h

/-- A string literal. -/
def stringLiteral (cursor : Cursor) : Except ScanError Kind × Cursor :=
  cursor.advance.stringItems cursor.location

/-- A raw string literal goes on to the next backtick. -/
def rawStringLiteral (cursor : Cursor) : Except ScanError Kind × Cursor :=
  match cursor.advance.eatThrough ['\x60'] with
  | (true, after) => (.ok (.quoted .rawString), after)
  | (false, stop) => (.error ⟨.unterminatedLiteral .rawString, cursor.location⟩, stop)

/-! ## Decimals -/

/-- A run of digits goes on with digits and underscores. -/
def eatDigits (cursor : Cursor) : Cursor := (cursor.eatWhile Digits.isRunChar).2

/-- A point and the digits behind it. A point without a digit behind it is gone back over. -/
def eatFraction (cursor : Cursor) : Cursor :=
  match cursor.eat '.' with
  | (true, point) =>
    match point.eatIf Char.isDigit with
    | (true, digit) => digit.eatDigits
    | (false, _) => cursor
  | (false, same) => same

/-- A decimal literal. -/
def decimalLiteral (cursor : Cursor) : Except ScanError Kind × Cursor :=
  match cursor.eatDigits.eatFraction.eatIf fun c => c == 'e' || c == 'E' with
  | (true, marker) =>
    match marker.eatIf Char.isDigit with
    | (true, digit) => (.ok .decimal, digit.eatDigits)
    | (false, stop) => (.error ⟨.missingExponentDigit, stop.location⟩, stop)
  | (false, after) => (.ok .decimal, after)

/-! ## Words and marks -/

/-- A run of letters. It is looked up among the keywords unless it begins with a capital, and an
underscore is taken in where it is one. -/
def word (cursor : Cursor) : Kind × Cursor :=
  let after := (cursor.eatWhile Char.isAlpha).2
  if cursor.current.isUpper then (.identifier, after)
  else
    match (after.sliceFrom? cursor.position).bind Keyword.ofLetters? with
    | none => (.identifier, after)
    | some keyword =>
      match after.eat '_' with
      | (true, underscore) => (.identifier, underscore)
      | (false, same) => (.keyword keyword, same)

/-- The first of some marks that is ahead. -/
def eatFirst (marks : List Mark) (cursor : Cursor) : Option Mark × Cursor :=
  match marks with
  | [] => (none, cursor)
  | mark :: marks =>
    match cursor.eatText mark.text with
    | (true, after) => (some mark, after)
    | (false, same) => same.eatFirst marks

/-- The longest mark ahead, and never a delimiter. -/
def eatMark (cursor : Cursor) : Option Mark × Cursor :=
  if cursor.atEnd || Mark.isDelimiter cursor.current then (none, cursor)
  else cursor.eatFirst Mark.longestFirst

/-! ## The next lexeme -/

/-- Marks come first. What is no mark is told by its first codepoint. -/
def scanToken (cursor : Cursor) : Except ScanError Kind × Cursor :=
  match cursor.eatMark with
  | (some mark, after) => (.ok (.mark mark), after)
  | (none, same) =>
    let c := same.current
    if c = '\'' then same.characterLiteral
    else if c = '"' then same.stringLiteral
    else if c = '\x60' then same.rawStringLiteral
    else if c.isDigit then same.decimalLiteral
    else if c.isAlpha then
      let (kind, after) := same.word
      (.ok kind, after)
    else (.ok .unknown, same.advance)

theorem length_rest_lt_of_skipComment (h : cursor.skipComment = (.ok true, after)) :
    after.rest.length < cursor.rest.length := by
  rw [skipComment] at h
  split at h
  · cases h
  next sign hsign =>
    have hlater (n : Nat) : (sign.skip n).rest.length < cursor.rest.length :=
      Nat.lt_of_le_of_lt (sign.length_rest_skip_le n) (length_rest_lt_of_eatIf hsign)
    split at h
    next brace hbrace =>
      split at h
      next stop hthrough =>
        obtain rfl := (Prod.mk.inj h).2
        rw [eatThrough] at hthrough
        split at hthrough
        · rw [← (Prod.mk.inj hthrough).2]
          refine Nat.lt_of_le_of_lt (brace.length_rest_skip_le _) ?_
          exact Nat.lt_trans (length_rest_lt_of_eatIf hbrace) (hlater 0)
        · cases hthrough
      · cases h
    next same hsame =>
      obtain rfl := eq_of_eatIf hsame
      rw [← (Prod.mk.inj h).2]
      exact hlater _

/-- A gap that was passed takes something. -/
theorem length_rest_lt_of_skipGap (h : cursor.skipGap = (.ok true, after)) :
    after.rest.length < cursor.rest.length := by
  rw [skipGap] at h
  split at h
  next heat =>
    obtain rfl := (Prod.mk.inj h).2
    exact length_rest_lt_of_eatIf heat
  next heat =>
    obtain rfl := eq_of_eatIf heat
    exact length_rest_lt_of_skipComment h

/-- The next lexeme or error, and the cursor after it. -/
def scanNext (cursor : Cursor) : Scanner.Event × Cursor :=
  if cursor.atEnd then (.finished, cursor)
  else
    match _h : cursor.skipGap with
    | (.error error, stop) => (.error error, stop)
    | (.ok true, after) => after.scanNext
    | (.ok false, first) =>
      match first.scanToken with
      | (.error error, stop) => (.error error, stop)
      | (.ok kind, after) =>
        let span : Span := ⟨first.location, after.location⟩
        (.lexeme ⟨kind, first.source.contents span, span⟩, after)
  termination_by cursor.rest.length
  decreasing_by exact length_rest_lt_of_skipGap _h

end Lexis.Cursor
