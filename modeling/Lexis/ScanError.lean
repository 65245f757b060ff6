import Lexis.Source.Location
import Lexis.Token.Kind

/-!
# What stops a scan

A codepoint that begins no token is no error. Only a malformed literal or a block comment without
an end stops a scan.

- `ScanError.Cause`: what is wrong.
- `ScanError`: the cause, and the place a reader is shown.
- `ScanError.Cause.message`, `ScanError.Cause.help`: what went wrong, and how to mend it.
-/

namespace Lexis

/-- What is wrong with a text that cannot be scanned. -/
inductive ScanError.Cause where
  /-- A character literal without a character. -/
  | emptyCharacterLiteral
  /-- A literal without its closing delimiter. -/
  | unterminatedLiteral (form : Quoted)
  /-- A newline inside a literal that may not hold one. -/
  | bareNewlineInLiteral (form : Quoted)
  /-- A backslash that begins no escape: the hexadecimal digits after it are none, or too many. -/
  | invalidEscapeDigitCount (digits : Nat)
  /-- An exponent marker without a digit after it. -/
  | missingExponentDigit
  /-- A block comment without its closing mark. -/
  | unterminatedBlockComment
  deriving DecidableEq, Repr

/-- A cause and its place. -/
structure ScanError where
  cause : ScanError.Cause
  location : Location
  deriving DecidableEq, Repr

namespace ScanError.Cause

/-- What went wrong. -/
def message : Cause → String
  | emptyCharacterLiteral => "empty character literal"
  | unterminatedLiteral form => "unterminated " ++ form.description ++ " literal"
  | bareNewlineInLiteral form => "newline in " ++ form.description ++ " literal"
  | invalidEscapeDigitCount digits =>
    "escape sequence has " ++ toString digits ++ " hexadecimal digits, expected 1 to 8"
  | missingExponentDigit => "missing digit in decimal exponent"
  | unterminatedBlockComment => "unterminated block comment"

/-- How to mend it. -/
def help : Cause → String
  | emptyCharacterLiteral =>
    "a character literal holds exactly one character; escape a quote as `'\\''`"
  | unterminatedLiteral form => "add a closing `" ++ form.delimiter.toString ++ "`"
  | bareNewlineInLiteral _ =>
    "use `\\a` for a newline, or a raw string for multi-line text"
  | invalidEscapeDigitCount _ =>
    "escape one of \\ ' \" ` or write the codepoint as 1 to 8 hex digits"
  | missingExponentDigit => "write the exponent as digits, e.g. `1e10`"
  | unterminatedBlockComment => "close the comment with `\x7d#`"

end ScanError.Cause

/-- What went wrong. -/
def ScanError.message (error : ScanError) : String := error.cause.message

/-- How to mend it. -/
def ScanError.help (error : ScanError) : String := error.cause.help

end Lexis
