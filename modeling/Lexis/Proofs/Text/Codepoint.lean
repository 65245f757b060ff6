import Lexis.Literal.Escape

/-!
# Classes and numbers of codepoints

ASCII letters are capitals or small ones, and neither is the other or a digit. A number is that of
one codepoint at most, and surrogates and numbers above `10ffff` are no codepoint's.

- `Text.isAlpha_iff`: what a letter is.
- `Text.not_isDigit_of_isAlpha`, `Text.not_isLower_of_isUpper`: the classes have nothing in common.
- `Text.toNat_lt_of_isLower`: small letters are in ASCII.
- `Text.toNat_ofNat_of_isValidChar`: a valid number leads to its codepoint and back.
- `Text.scalar?_eq_some_iff`, `Text.scalar?_eq_none_iff`: the codepoint with a number, and the
  numbers without one.
-/

namespace Lexis.Text

/-! ## Letters and digits -/

/-- Codepoints that a class tells apart are not the same. -/
theorem ne_of_class {p : Char → Bool} {c d : Char} (hc : p c = true) (hd : p d = false) :
    c ≠ d := by
  rintro rfl
  rw [hc] at hd
  exact absurd hd (by decide)

variable {c : Char}

theorem isAlpha_iff : c.isAlpha = true ↔ c.isUpper = true ∨ c.isLower = true :=
  Bool.or_eq_true_iff

theorem isAlpha_of_isUpper (hc : c.isUpper = true) : c.isAlpha = true :=
  isAlpha_iff.2 (.inl hc)

theorem isAlpha_of_isLower (hc : c.isLower = true) : c.isAlpha = true :=
  isAlpha_iff.2 (.inr hc)

/-- No letter is a digit: the digits end before the capitals begin. -/
theorem not_isDigit_of_isAlpha (hc : c.isAlpha = true) : c.isDigit = false := by
  refine Bool.eq_false_iff.2 fun hdigit => ?_
  have hnine : c.val ≤ '9'.val := of_decide_eq_true (Bool.and_eq_true_iff.1 hdigit).2
  have hletter : 'A'.val ≤ c.val := by
    rcases isAlpha_iff.1 hc with hupper | hlower
    · exact (of_decide_eq_true hupper).1
    · have hle : 'a'.val ≤ c.val := of_decide_eq_true (Bool.and_eq_true_iff.1 hlower).1
      exact UInt32.le_trans (by decide) hle
  exact absurd (UInt32.le_trans hletter hnine) (by decide)

/-- No capital is a small letter: the capitals end before the small letters begin. -/
theorem not_isLower_of_isUpper (hc : c.isUpper = true) : c.isLower = false := by
  refine Bool.eq_false_iff.2 fun hlower => ?_
  have hle : c.val ≤ 'Z'.val := (of_decide_eq_true hc).2
  have hge : 'a'.val ≤ c.val := of_decide_eq_true (Bool.and_eq_true_iff.1 hlower).1
  exact absurd (UInt32.le_trans hge hle) (by decide)

theorem toNat_lt_of_isLower (hc : c.isLower = true) : c.toNat < 0x80 := by
  have hle : c.val ≤ 'z'.val := of_decide_eq_true (Bool.and_eq_true_iff.1 hc).2
  exact Nat.lt_of_le_of_lt (UInt32.le_iff_toNat_le.1 hle) (by decide)

/-! ## Numbers -/

variable {n : Nat}

theorem toNat_ofNat_of_isValidChar (h : n.isValidChar) : (Char.ofNat n).toNat = n := by
  rw [Char.ofNat, dif_pos h]
  rfl

theorem scalar?_eq_some_iff {c : Char} : scalar? n = some c ↔ c.toNat = n := by
  rw [scalar?]
  constructor
  · intro h
    split at h
    next hvalid =>
      obtain rfl := Option.some.inj h
      exact toNat_ofNat_of_isValidChar hvalid
    · exact absurd h (by simp)
  · rintro rfl
    have hvalid : c.toNat.isValidChar := c.valid
    rw [if_pos hvalid, Char.ofNat_toNat]

/-- Surrogates and numbers above `10ffff` are no codepoint's. -/
theorem scalar?_eq_none_iff :
    scalar? n = none ↔ (0xd800 ≤ n ∧ n ≤ 0xdfff) ∨ 0x10ffff < n := by
  rw [scalar?]
  constructor
  · intro h
    split at h
    · exact absurd h (by simp)
    next hvalid =>
      rw [Nat.isValidChar] at hvalid
      omega
  · intro h
    refine if_neg fun hvalid => ?_
    rw [Nat.isValidChar] at hvalid
    omega

end Lexis.Text
