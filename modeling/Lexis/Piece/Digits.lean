/-!
# Runs of digits

A run of digits begins with an ASCII digit and goes on with digits and underscores.

- `Digits.read?`: the longest run that a text begins with, and what follows it.
- `Mantissa.read`: the digits before a decimal's exponent: a run, and a second one after a point
  where the point is followed by a digit.
-/

namespace Lexis

namespace Digits

/-- An ASCII digit or an underscore. -/
def isRunChar (c : Char) : Bool := c.isDigit || c == '_'

/-- The longest run of digits that a text begins with, and the text after it. -/
def read? : List Char → Option (List Char × List Char)
  | [] => none
  | c :: rest =>
    if c.isDigit then some (c :: rest.takeWhile isRunChar, rest.dropWhile isRunChar) else none

/-- A run that was read is the text up to the rest. -/
theorem append_of_read? {s run rest : List Char} (h : read? s = some (run, rest)) :
    run ++ rest = s := by
  cases s with
  | nil => simp [read?] at h
  | cons c t =>
    simp only [read?] at h
    split at h
    · simp only [Option.some.injEq, Prod.mk.injEq] at h
      obtain ⟨rfl, rfl⟩ := h
      simp
    · simp at h

end Digits

/-- The digits that follow a point, point included, where a digit does follow it. -/
def Fraction.read (s : List Char) : List Char × List Char :=
  match s with
  | '.' :: rest =>
    match Digits.read? rest with
    | some (run, rest) => ('.' :: run, rest)
    | none => ([], s)
  | _ => ([], s)

/-- Reading a fraction loses nothing. -/
theorem Fraction.append_read (s : List Char) : (Fraction.read s).1 ++ (Fraction.read s).2 = s := by
  unfold Fraction.read
  split
  · split
    · next h => exact congrArg ('.' :: ·) (Digits.append_of_read? h)
    · rfl
  · rfl

/-- The digits of a decimal up to its exponent, and the text after them. -/
def Mantissa.read (s : List Char) : List Char × List Char :=
  match Digits.read? s with
  | none => ([], s)
  | some (run, rest) => (run ++ (Fraction.read rest).1, (Fraction.read rest).2)

/-- Reading a mantissa loses nothing. -/
theorem Mantissa.append_read (s : List Char) : (Mantissa.read s).1 ++ (Mantissa.read s).2 = s := by
  unfold Mantissa.read
  split
  · rfl
  · next h => rw [List.append_assoc, Fraction.append_read, Digits.append_of_read? h]

end Lexis
