import Lexis.Number.Numeral

/-!
# Decimal literals

A decimal literal is a run of digits, then optionally a point and a second run, then optionally an
exponent marker and a third. Underscores inside a run only separate its digits.

- `Decimal`: the digits of the three runs.
- `Decimal.ofText?`: the runs of a literal's text.
- `Decimal.toBinary64`: the double nearest to the number that they write.
-/

namespace Lexis

/-- The digits of a decimal literal: before the point, after it, and in the exponent. -/
structure Decimal where
  integer : List Char
  fraction : Option (List Char)
  exponent : Option (List Char)
  deriving DecidableEq, Repr

namespace Decimal

/-- The digits of a run: it must begin with a digit and hold only digits and underscores. -/
def digitsOf? (run : List Char) : Option (List Char) :=
  let digits := run.filter (· != '_')
  if run.head?.any Char.isDigit && digits.all Char.isDigit then some digits else none

/-- The digits of a run that may be absent. -/
def optionalDigitsOf? : Option (List Char) → Option (Option (List Char))
  | none => some none
  | some run => (digitsOf? run).map some

/-- A text before and after the first codepoint that satisfies `p`. -/
def cut (p : Char → Bool) (s : List Char) : List Char × Option (List Char) :=
  (s.takeWhile (fun c => !p c), (s.dropWhile (fun c => !p c)).tail?)

/-- The runs of a literal's text, cut at its first exponent marker and at the first point before
that. -/
def ofText? (text : List Char) : Option Decimal :=
  let (mantissa, exponent) := cut (fun c => c == 'e' || c == 'E') text
  let (integer, fraction) := cut (· == '.') mantissa
  match digitsOf? integer, optionalDigitsOf? fraction, optionalDigitsOf? exponent with
  | some integer, some fraction, some exponent => some ⟨integer, fraction, exponent⟩
  | _, _, _ => none

/-- A run after the codepoint that introduces it. -/
def introduced (c : Char) : Option (List Char) → List Char
  | none => []
  | some run => c :: run

/-- The numeral that the runs write. -/
def text (decimal : Decimal) : List Char :=
  decimal.integer ++ introduced '.' decimal.fraction ++ introduced 'e' decimal.exponent

/-- The double nearest to the number that the runs write. Runs that write no numeral denote no
number. -/
def toBinary64 (decimal : Decimal) : Binary64 :=
  match Numeral.ofText? decimal.text with
  | some numeral => numeral.toBinary64
  | none => .nan

end Decimal

end Lexis
