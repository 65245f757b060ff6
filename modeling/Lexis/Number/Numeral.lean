import Lexis.Number.Binary64

/-!
# Numerals of floating-point numbers

A numeral is an optional sign, then a word for infinity or for what is not a number, in any case, or
decimal digits with an optional point among or around them and an optional exponent.

- `Numeral`: what a numeral says.
- `Numeral.ofText?`: the numeral that a text is.
- `Numeral.toBinary64`: the double nearest to it.
-/

namespace Lexis

/-- What a numeral says: a finite one is `digits * 10 ^ exponent` with a sign. -/
inductive Numeral where
  | nan
  | infinite (negative : Bool)
  | finite (negative : Bool) (digits : Nat) (exponent : Int)
  deriving DecidableEq, Repr

/-- The number that decimal digits write. -/
def decimalValue (digits : List Char) : Nat :=
  digits.foldl (fun value c => value * 10 + (c.toNat - 48)) 0

namespace Numeral

/-- A sign, and the text after it: a minus sign says that the number is negative. -/
def readSign : List Char → Bool × List Char
  | '-' :: rest => (true, rest)
  | '+' :: rest => (false, rest)
  | s => (false, s)

/-- What an exponent counts: nothing at all, or a marker, an optional sign and digits. -/
def exponentOf? : List Char → Option Int
  | [] => some 0
  | c :: rest =>
    if c = 'e' ∨ c = 'E' then
      let (negative, digits) := readSign rest
      if digits.isEmpty || !digits.all Char.isDigit then none
      else if negative then some (-decimalValue digits)
      else some (decimalValue digits)
    else none

/-- The digits after a point and the text after them, or no digits where there is no point. -/
def readFraction : List Char → List Char × List Char
  | '.' :: rest => (rest.takeWhile Char.isDigit, rest.dropWhile Char.isDigit)
  | s => ([], s)

/-- The finite numeral that a text without a sign is. Digits must stand before or after the point,
and each one after it lowers the exponent by one. -/
def unsigned? (negative : Bool) (s : List Char) : Option Numeral :=
  let whole := s.takeWhile Char.isDigit
  let (fraction, after) := readFraction (s.dropWhile Char.isDigit)
  if whole.isEmpty && fraction.isEmpty then none
  else
    (exponentOf? after).map fun exponent =>
      finite negative (decimalValue (whole ++ fraction)) (exponent - fraction.length)

/-- The numeral that a text is. -/
def ofText? (s : List Char) : Option Numeral :=
  let (negative, rest) := readSign s
  let lower := rest.map Char.toLower
  if lower = "nan".toList then some nan
  else if lower = "inf".toList ∨ lower = "infinity".toList then some (infinite negative)
  else unsigned? negative rest

/-- The double nearest to a numeral. -/
def toBinary64 : Numeral → Binary64
  | nan => .nan
  | infinite negative => .signed negative Binary64.infinity
  | finite negative digits exponent => .signed negative (Binary64.ofDecimal digits exponent)

end Numeral

end Lexis
