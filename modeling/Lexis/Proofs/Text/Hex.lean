import Mathlib.Algebra.Group.Nat.Defs
import Lexis.Literal.Escape
import Lexis.Text.Escaped
import Lexis.Proofs.Text.Codepoint

/-!
# Numbers in hexadecimal digits

- `Text.isDigit_or_isAlpha_of_isHexDigit`: a hexadecimal digit is a digit or a letter.
- `Text.hexDigitsOf`: a number in so many hexadecimal digits, the last ones it has.
- `Text.hexValue_hexDigitsOf`: the digits write the number, where there are enough of them.
- `Text.hexValue_hexDigits`: so do the digits without leading zeros.
-/

namespace Lexis.Text

/-- The hexadecimal digits are ASCII digits, and letters from the first ones of either case. -/
theorem isDigit_or_isAlpha_of_isHexDigit {c : Char} (h : isHexDigit c = true) :
    c.isDigit = true ∨ c.isAlpha = true := by
  rw [isHexDigit, Bool.or_eq_true, Bool.or_eq_true, Bool.and_eq_true, Bool.and_eq_true] at h
  rcases h with (hdigit | ⟨hge, hle⟩) | ⟨hge, hle⟩
  · exact .inl hdigit
  · have hle : c.val ≤ 'f'.val := of_decide_eq_true hle
    have hz : c.val ≤ 'z'.val := UInt32.le_trans hle (by decide)
    exact .inr (isAlpha_of_isLower (Bool.and_eq_true_iff.2 ⟨hge, decide_eq_true hz⟩))
  · have hge : 'A'.val ≤ c.val := of_decide_eq_true hge
    have hle : c.val ≤ 'F'.val := of_decide_eq_true hle
    have hz : c.val ≤ 'Z'.val := UInt32.le_trans hle (by decide)
    exact .inr (isAlpha_of_isUpper (decide_eq_true ⟨hge, hz⟩))

/-- The last `width` hexadecimal digits of a number, with zeros in front where it has fewer. -/
def hexDigitsOf : Nat → Nat → List Char
  | 0, _ => []
  | width + 1, n => hexDigitsOf width (n / 16) ++ [Nat.digitChar (n % 16)]

theorem length_hexDigitsOf (width n : Nat) : (hexDigitsOf width n).length = width := by
  induction width generalizing n with
  | zero => rfl
  | succ width ih => rw [hexDigitsOf, List.length_append, ih, List.length_singleton]

theorem isHexDigit_digitChar : ∀ n < 16, isHexDigit (Nat.digitChar n) = true := by
  decide

theorem hexDigitValue_digitChar : ∀ n < 16, hexDigitValue (Nat.digitChar n) = n := by
  decide

theorem isHexDigit_of_mem_hexDigitsOf {width n : Nat} {c : Char} (h : c ∈ hexDigitsOf width n) :
    isHexDigit c = true := by
  induction width generalizing n with
  | zero => exact absurd h List.not_mem_nil
  | succ width ih =>
    rcases List.mem_append.1 h with h | h
    · exact ih h
    · obtain rfl := List.mem_singleton.1 h
      exact isHexDigit_digitChar _ (Nat.mod_lt n (by decide))

theorem hexValue_concat (digits : List Char) (c : Char) :
    hexValue (digits ++ [c]) = hexValue digits * 16 + hexDigitValue c :=
  List.foldl_append

/-- **The last digits of a number write what is left of it** when the digits in front of them are
dropped. -/
theorem hexValue_hexDigitsOf (width n : Nat) : hexValue (hexDigitsOf width n) = n % 16 ^ width := by
  induction width generalizing n with
  | zero => exact (Nat.mod_one n).symm
  | succ width ih =>
    have hdigit := hexDigitValue_digitChar _ (Nat.mod_lt n (show 16 > 0 by decide))
    rw [hexDigitsOf, hexValue_concat, ih, hdigit, Nat.pow_succ', Nat.mod_mul]
    omega

/-! ## Without leading zeros -/

/-- The digits of a number are those of a sixteenth of it, and one more. -/
theorem hexDigits_eq (n : Nat) :
    hexDigits n = if n < 16 then [Nat.digitChar n]
      else hexDigits (n / 16) ++ [Nat.digitChar (n % 16)] :=
  Nat.toDigits_eq_if (by decide)

theorem isHexDigit_of_mem_hexDigits {n : Nat} {c : Char} (h : c ∈ hexDigits n) :
    isHexDigit c = true := by
  induction n using Nat.strongRecOn with
  | ind n ih =>
    rw [hexDigits_eq] at h
    split at h
    next hn =>
      obtain rfl := List.mem_singleton.1 h
      exact isHexDigit_digitChar n hn
    next hn =>
      rcases List.mem_append.1 h with h | h
      · exact ih (n / 16) (Nat.div_lt_self (by omega) (by decide)) h
      · obtain rfl := List.mem_singleton.1 h
        exact isHexDigit_digitChar _ (Nat.mod_lt n (by decide))

/-- **The digits of a number write it.** -/
theorem hexValue_hexDigits (n : Nat) : hexValue (hexDigits n) = n := by
  induction n using Nat.strongRecOn with
  | ind n ih =>
    rw [hexDigits_eq]
    split
    next hn =>
      rw [← List.nil_append [Nat.digitChar n], hexValue_concat, hexDigitValue_digitChar n hn]
      exact Nat.zero_add n
    next hn =>
      have hdigit := hexDigitValue_digitChar _ (Nat.mod_lt n (show 16 > 0 by decide))
      rw [hexValue_concat, ih (n / 16) (Nat.div_lt_self (by omega) (by decide)), hdigit]
      omega

end Lexis.Text
