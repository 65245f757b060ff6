/-!
# Marks

Marks are the punctuation and the operators of the language, one or two codepoints each.

- `Mark`: the marks, in the order that token kinds compare by.
- `Mark.text`, `Mark.name`: how a mark is written, and what it is called.
- `Mark.longestFirst`: every mark, two codepoints before one, so that the first that fits is the
  longest.
- `Mark.atHead?`: the mark that a text begins with, never a delimiter of a literal.
-/

namespace Lexis

/-- The marks of the language. -/
inductive Mark where
  | openingParenthesis | closingParenthesis
  | openingBrace | closingBrace
  | openingBracket | closingBracket
  | prime | quote | backtick
  | caretEquals | caret
  | starEquals | star
  | slashEquals | slash
  | plusEquals | plus
  | minusEquals | minus
  | ampersandEquals | ampersand
  | pipeEquals | pipe
  | exclamation
  | leftArrowEquals | leftArrow
  | rightArrowEquals | rightArrow
  | exclamationEquals | equalsEquals
  | dollar | tilde | dot
  | equals | comma | colon | semicolon | atSign
  deriving DecidableEq, Repr, Ord

namespace Mark

/-- How a mark is written. -/
def text : Mark → List Char
  | openingParenthesis => ['(']
  | closingParenthesis => [')']
  | openingBrace => ['\x7b']
  | closingBrace => ['\x7d']
  | openingBracket => ['[']
  | closingBracket => [']']
  | prime => ['\'']
  | quote => ['"']
  | backtick => ['\x60']
  | caretEquals => ['^', '=']
  | caret => ['^']
  | starEquals => ['*', '=']
  | star => ['*']
  | slashEquals => ['/', '=']
  | slash => ['/']
  | plusEquals => ['+', '=']
  | plus => ['+']
  | minusEquals => ['-', '=']
  | minus => ['-']
  | ampersandEquals => ['&', '=']
  | ampersand => ['&']
  | pipeEquals => ['|', '=']
  | pipe => ['|']
  | exclamation => ['!']
  | leftArrowEquals => ['<', '=']
  | leftArrow => ['<']
  | rightArrowEquals => ['>', '=']
  | rightArrow => ['>']
  | exclamationEquals => ['!', '=']
  | equalsEquals => ['=', '=']
  | dollar => ['$']
  | tilde => ['~']
  | dot => ['.']
  | equals => ['=']
  | comma => [',']
  | colon => [':']
  | semicolon => [';']
  | atSign => ['@']

/-- Every mark is written by at least one codepoint. -/
theorem text_length_pos (mark : Mark) : 0 < mark.text.length := by
  cases mark <;> decide

/-- What a mark is called. -/
def name : Mark → String
  | openingParenthesis => "OPENING_PARENTHESIS"
  | closingParenthesis => "CLOSING_PARENTHESIS"
  | openingBrace => "OPENING_BRACE"
  | closingBrace => "CLOSING_BRACE"
  | openingBracket => "OPENING_BRACKET"
  | closingBracket => "CLOSING_BRACKET"
  | prime => "PRIME"
  | quote => "QUOTE"
  | backtick => "BACKTICK"
  | caretEquals => "CARET_EQUALS"
  | caret => "CARET"
  | starEquals => "STAR_EQUALS"
  | star => "STAR"
  | slashEquals => "SLASH_EQUALS"
  | slash => "SLASH"
  | plusEquals => "PLUS_EQUALS"
  | plus => "PLUS"
  | minusEquals => "MINUS_EQUALS"
  | minus => "MINUS"
  | ampersandEquals => "AMPERSAND_EQUALS"
  | ampersand => "AMPERSAND"
  | pipeEquals => "PIPE_EQUALS"
  | pipe => "PIPE"
  | exclamation => "EXCLAMATION"
  | leftArrowEquals => "LEFT_ARROW_EQUALS"
  | leftArrow => "LEFT_ARROW"
  | rightArrowEquals => "RIGHT_ARROW_EQUALS"
  | rightArrow => "RIGHT_ARROW"
  | exclamationEquals => "EXCLAMATION_EQUALS"
  | equalsEquals => "EQUALS_EQUALS"
  | dollar => "DOLLAR"
  | tilde => "TILDE"
  | dot => "DOT"
  | equals => "EQUALS"
  | comma => "COMMA"
  | colon => "COLON"
  | semicolon => "SEMICOLON"
  | atSign => "AT"

/-- Every mark, the longer ones first. -/
def longestFirst : List Mark :=
  [caretEquals, starEquals, slashEquals, plusEquals, minusEquals, ampersandEquals, pipeEquals,
    leftArrowEquals, rightArrowEquals, exclamationEquals, equalsEquals,
    openingParenthesis, closingParenthesis, openingBrace, closingBrace, openingBracket,
    closingBracket, prime, quote, backtick, caret, star, slash, plus, minus, ampersand, pipe,
    exclamation, leftArrow, rightArrow, dollar, tilde, dot, equals, comma, colon, semicolon,
    atSign]

/-- The mark that is written `s`. -/
def ofText? (s : List Char) : Option Mark :=
  longestFirst.find? (fun mark => mark.text == s)

/-- The codepoints that open and close a literal. -/
def isDelimiter (c : Char) : Bool := c == '\'' || c == '"' || c == '\x60'

/-- The longest mark that a text begins with. A text that begins with a delimiter has none: the
delimiter opens a literal. -/
def atHead? : List Char → Option Mark
  | [] => none
  | c :: rest =>
    if isDelimiter c then none
    else longestFirst.find? (fun mark => mark.text.isPrefixOf (c :: rest))

end Mark

end Lexis
