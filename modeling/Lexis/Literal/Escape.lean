import Lexis.Piece.Item

/-!
# What escapes denote

Between the delimiters of a character or string literal a backslash begins an escape, and any other
codepoint denotes itself. An escape denotes the delimiter or backslash after it, or the codepoint
whose number its hexadecimal digits write.

- `Text.hexValue`: the number that hexadecimal digits write; `Text.scalar?`: the codepoint with a
  given number, where Unicode has one.
- `EscapeFault`: why an escape denotes nothing.
- `readEscape`: the codepoint that the escape after a backslash denotes, and the text after it.
- `unescape`: the codepoints that a text denotes, or its first fault.
-/

namespace Lexis

namespace Text

/-- What a hexadecimal digit counts, from zero to fifteen. -/
def hexDigitValue (c : Char) : Nat :=
  if c.isDigit then c.toNat - 48
  else if 'a' ≤ c && c ≤ 'f' then c.toNat - 87
  else c.toNat - 55

/-- The number that hexadecimal digits write, the first digit weighing most. -/
def hexValue (digits : List Char) : Nat :=
  digits.foldl (fun value c => value * 16 + hexDigitValue c) 0

/-- The codepoint with number `n`: surrogates and numbers above `10ffff` name none. -/
def scalar? (n : Nat) : Option Char :=
  if n.isValidChar then some (Char.ofNat n) else none

end Text

namespace Literal

/-- Why an escape denotes no codepoint. -/
inductive EscapeFault where
  /-- No escape is written so. -/
  | malformed
  /-- The digits write a number that is no codepoint's. -/
  | invalidCodepoint (digits : List Char)
  deriving DecidableEq, Repr

/-- The codepoint denoted by up to eight hexadecimal digits. -/
def codepointOf (digits : List Char) : Except EscapeFault Char :=
  if 8 < digits.length then .error .malformed
  else
    match Text.scalar? (Text.hexValue digits) with
    | some c => .ok c
    | none => .error (.invalidCodepoint digits)

/-- The codepoint that an escape denotes, given the text after its backslash, and the text after
the escape. -/
def readEscape : List Char → Except EscapeFault (Char × List Char)
  | [] => .error .malformed
  | c :: rest =>
    if c = '\\' ∨ c = '\'' ∨ c = '"' ∨ c = '\x60' then .ok (c, rest)
    else if Text.isHexDigit c then
      match codepointOf (c :: rest.takeWhile Text.isHexDigit) with
      | .ok value => .ok (value, rest.dropWhile Text.isHexDigit)
      | .error fault => .error fault
    else .error .malformed

/-- What follows an escape is shorter than the text after its backslash. -/
theorem length_lt_of_readEscape {s rest : List Char} {value : Char}
    (h : readEscape s = .ok (value, rest)) : rest.length < s.length := by
  cases s with
  | nil => simp [readEscape] at h
  | cons c t =>
    simp only [readEscape] at h
    split at h
    · simp only [Except.ok.injEq, Prod.mk.injEq] at h
      simp [h.2]
    · split at h
      · split at h
        · simp only [Except.ok.injEq, Prod.mk.injEq] at h
          have hle := (List.dropWhile_sublist (l := t) Text.isHexDigit).length_le
          rw [h.2] at hle
          exact Nat.lt_succ_of_le hle
        · simp at h
      · simp at h

/-- The codepoints that a text denotes. Its first fault decides. -/
def unescape (s : List Char) : Except EscapeFault (List Char) :=
  match s with
  | [] => .ok []
  | c :: rest =>
    if c = '\\' then
      match _h : readEscape rest with
      | .error fault => .error fault
      | .ok (value, after) => (unescape after).map (value :: ·)
    else (unescape rest).map (c :: ·)
  termination_by s.length
  decreasing_by
    · exact Nat.lt_succ_of_lt (length_lt_of_readEscape _h)
    · exact Nat.lt_succ_self _

end Literal

end Lexis
