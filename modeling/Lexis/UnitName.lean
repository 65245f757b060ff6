import Lexis.Token.Keyword
import Lexis.Text.Escaped

/-!
# Names of units

Packages, modules and sources are units, and are called after their directory or file. So that a
program can refer to it, a unit's name must be a lower-case ASCII letter followed by lower-case
ASCII letters and digits, or a keyword with a trailing underscore.

- `NameError`: what is wrong with a name; `NameError.message` says it.
- `UnitName.fault?`: the first fault of a name.
- `UnitName`: a name without fault; `UnitName.ofText` makes one.
-/

namespace Lexis

/-- What is wrong with the name of a unit. -/
inductive NameError where
  | empty
  /-- The name ends with an underscore that does not follow a keyword. -/
  | notAnEscapedKeyword (name : List Char)
  /-- The first codepoint is no lower-case ASCII letter. -/
  | invalidInitial (name : List Char) (initial : Char)
  /-- A later codepoint is no lower-case ASCII letter or digit; `index` counts the bytes before it
  in UTF-8. -/
  | invalidCharacter (name : List Char) (character : Char) (index : Nat)
  deriving DecidableEq, Repr

/-- What is wrong, in words. -/
def NameError.message : NameError → String
  | empty => "name is empty"
  | notAnEscapedKeyword name =>
    "`" ++ String.ofList name ++ "` ends with `_` but `" ++ String.ofList name.dropLast
      ++ "` is not a keyword"
  | invalidInitial name initial =>
    "`" ++ String.ofList name ++ "` must start with a lowercase ASCII letter, not "
      ++ String.ofList (Text.quoteChar initial)
  | invalidCharacter name character index =>
    "`" ++ String.ofList name ++ "` contains " ++ String.ofList (Text.quoteChar character) ++ " at "
      ++ toString index ++ "; only lowercase ASCII letters and digits are allowed"

namespace UnitName

/-- A codepoint that may follow the first one of a name. -/
def isNameChar (c : Char) : Bool := c.isLower || c.isDigit

/-- The first codepoint of `s` that may not stand in a name, and the bytes before it, where `index`
bytes come before `s`. -/
def firstInvalid? (index : Nat) : List Char → Option (Char × Nat)
  | [] => none
  | c :: rest => if isNameChar c then firstInvalid? (index + c.utf8Size) rest else some (c, index)

/-- The first fault of a name. -/
def fault? (name : List Char) : Option NameError :=
  match name with
  | [] => some .empty
  | initial :: rest =>
    if name.getLast? = some '_' then
      if Keyword.isKeyword name.dropLast then none else some (.notAnEscapedKeyword name)
    else if initial.isLower then
      (firstInvalid? initial.utf8Size rest).map fun (c, index) => .invalidCharacter name c index
    else some (.invalidInitial name initial)

end UnitName

/-- The name of a unit. -/
structure UnitName where
  text : List Char
  valid : UnitName.fault? text = none
  deriving DecidableEq

namespace UnitName

/-- The name that a text is, or its first fault. -/
def ofText (text : List Char) : Except NameError UnitName :=
  match h : fault? text with
  | none => .ok ⟨text, h⟩
  | some error => .error error

/-- A name as a string. -/
def display (name : UnitName) : String := String.ofList name.text

/-- Names compare codepoint by codepoint. -/
def order (a b : UnitName) : Ordering := List.compareLex compare a.text b.text

end UnitName

end Lexis
