import Lexis.Lexeme
import Lexis.Literal.Decimal
import Lexis.Literal.Escape

/-!
# The values of literals

A literal's text, delimiters included, denotes a value. Scanning settles the shape of the text and
leaves one thing open: whether each number in an escape is a codepoint's.

- `Literal.Value`: a codepoint, a string or a decimal.
- `LiteralError`: why a text denotes no value; `LiteralError.message` says it.
- `Literal.value`: the value of a text as a literal of a kind.
- `Lexeme.value`: the value of a lexeme.
-/

namespace Lexis

/-- What a literal denotes. -/
inductive Literal.Value where
  | character (c : Char)
  | string (text : List Char)
  | rawString (text : List Char)
  | decimal (decimal : Decimal)
  deriving DecidableEq, Repr

/-- Why a text denotes no value. -/
inductive LiteralError where
  /-- An escape has the number of no codepoint, in these digits. -/
  | invalidCodepoint (digits : List Char)
  /-- The text is no literal of the kind. -/
  | malformed (kind : Kind) (text : List Char)
  deriving DecidableEq, Repr

/-- What is wrong with the text. -/
def LiteralError.message : LiteralError → String
  | invalidCodepoint digits =>
    "escape `\\" ++ String.ofList digits ++ "` is not a valid Unicode codepoint"
  | malformed kind text => "malformed " ++ kind.name ++ " literal `" ++ String.ofList text ++ "`"

namespace Literal

/-- The text between two delimiters that enclose all of `text`. -/
def body? (delimiter : Char) (text : List Char) : Option (List Char) :=
  match text with
  | [] => none
  | c :: rest =>
    if c = delimiter ∧ rest.getLast? = some delimiter then some rest.dropLast else none

/-- The codepoints that a literal with escapes denotes. -/
def unescapeBody (form : Quoted) (text : List Char) : Except LiteralError (List Char) :=
  match body? form.delimiter text with
  | none => .error (.malformed (.quoted form) text)
  | some body =>
    match unescape body with
    | .ok value => .ok value
    | .error .malformed => .error (.malformed (.quoted form) text)
    | .error (.invalidCodepoint digits) => .error (.invalidCodepoint digits)

/-- The codepoint that a character literal denotes. -/
def character (text : List Char) : Except LiteralError Char :=
  match unescapeBody .character text with
  | .ok [c] => .ok c
  | .ok _ => .error (.malformed (.quoted .character) text)
  | .error error => .error error

/-- The codepoints that a string literal denotes. -/
def string (text : List Char) : Except LiteralError (List Char) := unescapeBody .string text

/-- The codepoints that a raw string literal denotes, which are those between its delimiters. -/
def rawString (text : List Char) : Except LiteralError (List Char) :=
  match body? Quoted.rawString.delimiter text with
  | some body => .ok body
  | none => .error (.malformed (.quoted .rawString) text)

/-- The runs of digits of a decimal literal. -/
def decimal (text : List Char) : Except LiteralError Decimal :=
  match Decimal.ofText? text with
  | some decimal => .ok decimal
  | none => .error (.malformed .decimal text)

/-- The value of a text as a literal of a kind. Other kinds denote nothing. -/
def value (kind : Kind) (text : List Char) : Except LiteralError (Option Value) :=
  match kind with
  | .quoted .character => (character text).map (some ∘ .character)
  | .quoted .string => (string text).map (some ∘ .string)
  | .quoted .rawString => (rawString text).map (some ∘ .rawString)
  | .decimal => (decimal text).map (some ∘ .decimal)
  | _ => .ok none

end Literal

/-- The value of a lexeme. Only literals have one. -/
def Lexeme.value (lexeme : Lexeme) : Except LiteralError (Option Literal.Value) :=
  Literal.value lexeme.kind lexeme.text

end Lexis
