import Lexis.Token.Mark
import Lexis.Token.Keyword

/-!
# Token kinds

- `Quoted`: the three forms of literal that stand between delimiters.
- `Kind`: what a token is: a mark, a literal, a keyword, an identifier, or a codepoint that is none
  of these. Kinds compare in that order.
- `Kind.name`, `Kind.ofName?`: the name of a kind, and the kind of a name.
-/

namespace Lexis

/-- The literals that stand between two delimiters of their own. -/
inductive Quoted where
  | character | string | rawString
  deriving DecidableEq, Repr, Ord

namespace Quoted

/-- The codepoint that opens and closes the literal. -/
def delimiter : Quoted → Char
  | character => '\''
  | string => '"'
  | rawString => '\x60'

/-- What a message calls the literal. -/
def description : Quoted → String
  | character => "character"
  | string => "string"
  | rawString => "raw string"

/-- What the kind of the literal is called. -/
def name : Quoted → String
  | character => "CHARACTER"
  | string => "STRING"
  | rawString => "RAW_STRING"

end Quoted

/-- What a token is. -/
inductive Kind where
  | mark (mark : Mark)
  | quoted (form : Quoted)
  | decimal
  | keyword (keyword : Keyword)
  | identifier
  | unknown
  deriving DecidableEq, Repr, Ord

namespace Kind

/-- What a kind is called. -/
def name : Kind → String
  | mark m => m.name
  | quoted form => form.name
  | decimal => "DECIMAL"
  | keyword k => k.name
  | identifier => "IDENTIFIER"
  | unknown => "UNKNOWN"

/-- Every kind, marks by descending length and keywords in order. -/
def all : List Kind :=
  Mark.longestFirst.map mark
    ++ [quoted .character, quoted .string, quoted .rawString, decimal]
    ++ Keyword.all.map keyword
    ++ [identifier, unknown]

/-- The kind with a given name. -/
def ofName? (s : String) : Option Kind := all.find? (fun kind => kind.name == s)

/-- Whether tokens of this kind denote a value. -/
def isLiteral : Kind → Bool
  | quoted _ => true
  | decimal => true
  | _ => false

end Kind

end Lexis
