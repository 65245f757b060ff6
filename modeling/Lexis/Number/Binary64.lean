/-!
# Binary floating point in 64 bits

A double is a sign, eleven bits of exponent and fifty-two bits of significand. Without its sign it
is kept as the number that the other sixty-three bits write, which grows with the value: one more
is the next greater double, and infinity follows the greatest finite one.

- `Binary64`: a double; all that are not a number count as one.
- `divNearest`: a quotient rounded to the nearest whole number, a tie to the even one.
- `Binary64.nearest`: the magnitude nearest to a quotient of natural numbers.
- `Binary64.ofDecimal`: the magnitude nearest to a number written in decimal.
-/

namespace Lexis

/-- A double: not a number, or a sign and the sixty-three bits after it. -/
inductive Binary64 where
  | nan
  | signed (negative : Bool) (magnitude : Nat)
  deriving DecidableEq, Repr

/-- The whole number nearest to `n / d`, and the even one of two that are equally near. -/
def divNearest (n d : Nat) : Nat :=
  let quotient := n / d
  let twice := 2 * (n % d)
  if twice < d then quotient
  else if d < twice then quotient + 1
  else if quotient % 2 = 0 then quotient
  else quotient + 1

/-- How many decimal digits write a number. -/
def decimalLength (n : Nat) : Nat :=
  if n < 10 then 1 else decimalLength (n / 10) + 1

namespace Binary64

/-- The sixty-three bits of infinity: every bit of the exponent and none of the significand. -/
def infinity : Nat := 2047 <<< 52

/-- The sixty-three bits of the double nearest to `n / d`. The quotient is counted in units of the
least double, `2 ^ -1074`. Where it needs more than fifty-three bits the ones beyond them are
rounded away, and their number goes into the exponent. A significand that rounding makes too long
carries into the exponent by itself. -/
def nearest (n d : Nat) : Nat :=
  let units := n <<< 1074
  let excess := Nat.log2 (units / d) - 52
  min infinity ((excess <<< 52) + divNearest units (d <<< excess))

/-- The sixty-three bits of the double nearest to `digits * 10 ^ exponent`. A number of `10 ^ 309`
or more is infinite and one below `10 ^ -324` is zero, so no power beyond these is worked out. -/
def ofDecimal (digits : Nat) (exponent : Int) : Nat :=
  let magnitude := decimalLength digits + exponent
  if digits = 0 then 0
  else if 310 ≤ magnitude then infinity
  else if magnitude ≤ -324 then 0
  else if 0 ≤ exponent then nearest (digits * Nat.pow 10 exponent.toNat) 1
  else nearest digits (Nat.pow 10 (-exponent).toNat)

/-- The sixty-four bits of a double. Those of a value that is not a number are the ones with the
first bit of the significand. -/
def bits : Binary64 → Nat
  | nan => infinity + (1 <<< 51)
  | signed negative magnitude => (if negative then 1 <<< 63 else 0) + magnitude

end Binary64

end Lexis
