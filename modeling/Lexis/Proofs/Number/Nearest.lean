import Mathlib.Algebra.Order.AbsoluteValue.Basic
import Mathlib.Algebra.Order.Field.Basic
import Mathlib.Data.Rat.Cast.Order
import Mathlib.Order.Monotone.Basic
import Mathlib.Tactic.Linarith
import Mathlib.Tactic.Ring
import Lexis.Number.Binary64

/-!
# The nearest of ascending values

Values that ascend are numbered. Of all of them the nearest to a number is sought, and the one of
even number where two are equally near.

- `NearestEven values x m`: the value of number `m` is the nearest to `x`.
- `NearestEven.mono`: a greater number has no smaller nearest value.
- `NearestEven.of_between`: it is enough to compare the values on both sides of the number.
- `nearestEven_divNearest`: a quotient is rounded to the nearest whole number.
-/

namespace Lexis

/-- The value of number `m` is at least as near to `x` as any other, and if there is another that is
as near, `m` is even. -/
structure NearestEven (values : ℕ → ℚ) (x : ℚ) (m : ℕ) : Prop where
  le : ∀ other, |x - values m| ≤ |x - values other|
  even : ∀ other, other ≠ m → |x - values m| = |x - values other| → Even m

namespace NearestEven

variable {values : ℕ → ℚ} {x y : ℚ} {m n : ℕ}

/-! ## Midpoints -/

/-- A number is not below the middle between its nearest value and a smaller one. -/
theorem add_le_of_lt (h : NearestEven values x m) (hlt : values n < values m) :
    values n + values m ≤ 2 * x := by
  have hle := h.le n
  by_contra hx
  rw [not_le] at hx
  have hm : x - values m < 0 := by linarith
  rw [abs_of_neg hm] at hle
  rcases abs_cases (x - values n) with ⟨habs, -⟩ | ⟨habs, -⟩ <;> rw [habs] at hle <;> linarith

/-- Nor is it above the middle between its nearest value and a greater one. -/
theorem le_add_of_lt (h : NearestEven values x m) (hlt : values m < values n) :
    2 * x ≤ values m + values n := by
  have hle := h.le n
  by_contra hx
  rw [not_le] at hx
  have hm : 0 < x - values m := by linarith
  rw [abs_of_pos hm] at hle
  rcases abs_cases (x - values n) with ⟨habs, -⟩ | ⟨habs, -⟩ <;> rw [habs] at hle <;> linarith

/-- In the middle between two values both are equally near. -/
theorem abs_sub_eq_of_two_mul_eq (h : 2 * x = values m + values n) :
    |x - values m| = |x - values n| := by
  have hneg : x - values m = -(x - values n) := by linarith
  rw [hneg, abs_neg]

/-- A number beyond another is farther. -/
theorem abs_sub_lt_of_lt_of_le {a b : ℚ} (hb : b < a) (ha : a ≤ x) : |x - a| < |x - b| := by
  rw [abs_of_nonneg (sub_nonneg.2 ha), abs_of_pos (sub_pos.2 (hb.trans_le ha))]
  exact sub_lt_sub_left hb x

theorem abs_sub_lt_of_le_of_lt {a b : ℚ} (ha : x ≤ a) (hb : a < b) : |x - a| < |x - b| := by
  rw [abs_sub_comm x a, abs_sub_comm x b, abs_of_nonneg (sub_nonneg.2 ha),
    abs_of_pos (sub_pos.2 (ha.trans_lt hb))]
  exact sub_lt_sub_right hb x

/-! ## Order -/

/-- What is nearest among the values between two that enclose the number is nearest of all: any
other lies beyond one of the two. -/
theorem of_between {low high : ℕ} (hvalues : StrictMono values) (hlow : values low ≤ x)
    (hhigh : x ≤ values high)
    (hle : ∀ other, low ≤ other → other ≤ high → |x - values m| ≤ |x - values other|)
    (heven : ∀ other, low ≤ other → other ≤ high → other ≠ m →
      |x - values m| = |x - values other| → Even m) : NearestEven values x m := by
  have hends : low ≤ high := hvalues.le_iff_le.1 (hlow.trans hhigh)
  have hbeyond : ∀ other, ¬(low ≤ other ∧ other ≤ high) → |x - values m| < |x - values other| := by
    intro other hother
    by_cases hbelow : other < low
    · exact (hle low le_rfl hends).trans_lt (abs_sub_lt_of_lt_of_le (hvalues hbelow) hlow)
    · have habove : high < other := by omega
      exact (hle high hends le_rfl).trans_lt (abs_sub_lt_of_le_of_lt hhigh (hvalues habove))
  refine ⟨fun other => ?_, fun other hne heq => ?_⟩
  · by_cases hother : low ≤ other ∧ other ≤ high
    · exact hle other hother.1 hother.2
    · exact (hbeyond other hother).le
  · by_cases hother : low ≤ other ∧ other ≤ high
    · exact heven other hother.1 hother.2 hne heq
    · exact absurd heq (hbeyond other hother).ne

/-- **A greater number has no smaller nearest value.** If it had, both numbers would be in the
middle between the two values; then both values had even numbers, and one between them would be
nearer. -/
theorem mono (hvalues : StrictMono values) (hm : NearestEven values x m)
    (hn : NearestEven values y n) (hxy : x ≤ y) : m ≤ n := by
  by_contra hlt
  rw [not_le] at hlt
  have hlow := hm.add_le_of_lt (hvalues hlt)
  have hhigh := hn.le_add_of_lt (hvalues hlt)
  have hx : 2 * x = values m + values n := by linarith
  have hy : 2 * y = values n + values m := by linarith
  have hmEven := hm.even n hlt.ne (abs_sub_eq_of_two_mul_eq hx)
  have hnEven := hn.even m hlt.ne' (abs_sub_eq_of_two_mul_eq hy)
  have hne : n + 1 ≠ m := by
    rintro rfl
    exact Nat.not_even_iff_odd.2 hnEven.add_one hmEven
  have hbetween := hm.add_le_of_lt (hvalues (show n + 1 < m by omega))
  have hgrows := hvalues (Nat.lt_succ_self n)
  rw [Nat.succ_eq_add_one] at hgrows
  linarith

/-- A value is the nearest to itself. -/
theorem self (hvalues : StrictMono values) (m : ℕ) : NearestEven values (values m) m := by
  refine ⟨fun other => ?_, fun other hne heq => ?_⟩
  · rw [sub_self, abs_zero]
    exact abs_nonneg _
  · rw [sub_self, abs_zero, eq_comm, abs_eq_zero, sub_eq_zero] at heq
    exact absurd (hvalues.injective heq).symm hne

/-- The nearest value is beyond one of odd number from the middle on that this has with the next. -/
theorem lt_iff_of_odd (hvalues : StrictMono values) (hm : NearestEven values x m) (hn : Odd n) :
    n < m ↔ values n + values (n + 1) ≤ 2 * x := by
  constructor
  · intro hlt
    have hlow := hm.add_le_of_lt (hvalues hlt)
    have hnext := hvalues.monotone (Nat.succ_le_of_lt hlt)
    rw [Nat.succ_eq_add_one] at hnext
    linarith
  · intro hx
    by_contra hle
    rw [not_lt] at hle
    have hhigh := hm.le_add_of_lt (hvalues (Nat.lt_succ_of_le hle))
    have hbefore := hvalues.monotone hle
    rw [Nat.succ_eq_add_one] at hhigh
    obtain rfl : m = n := hvalues.injective (by linarith)
    have heven := hm.even (m + 1) (Nat.succ_ne_self m) (abs_sub_eq_of_two_mul_eq (by linarith))
    exact Nat.not_even_iff_odd.2 hn heven

/-- And it is not beyond one of even number up to that middle. -/
theorem le_iff_of_even (hvalues : StrictMono values) (hm : NearestEven values x m) (hn : Even n) :
    m ≤ n ↔ 2 * x ≤ values n + values (n + 1) := by
  constructor
  · intro hle
    have hhigh := hm.le_add_of_lt (hvalues (Nat.lt_succ_of_le hle))
    have hbefore := hvalues.monotone hle
    rw [Nat.succ_eq_add_one] at hhigh
    linarith
  · intro hx
    by_contra hlt
    rw [not_le] at hlt
    have hlow := hm.add_le_of_lt (hvalues hlt)
    have hnext := hvalues.monotone (Nat.succ_le_of_lt hlt)
    rw [Nat.succ_eq_add_one] at hnext
    obtain rfl : m = n + 1 := hvalues.injective (by linarith)
    have heven := hm.even n (Nat.succ_ne_self n).symm (abs_sub_eq_of_two_mul_eq (by linarith))
    exact Nat.not_even_iff_odd.2 hn.add_one heven

/-- What is nearest stays so where all is counted in other units. -/
theorem scale {c : ℚ} (hc : 0 < c) (h : NearestEven values x m) :
    NearestEven (fun n => values n * c) (x * c) m := by
  have hdistance : ∀ n, |x * c - values n * c| = |x - values n| * c := fun n => by
    rw [← sub_mul, abs_mul, abs_of_pos hc]
  refine ⟨fun other => ?_, fun other hne heq => h.even other hne ?_⟩
  · rw [hdistance, hdistance]
    exact mul_le_mul_of_nonneg_right (h.le other) hc.le
  · rw [hdistance, hdistance] at heq
    exact mul_right_cancel₀ hc.ne' heq

end NearestEven

/-! ## Whole numbers -/

/-- A whole number that is no farther than a half is the nearest. -/
theorem nearestEven_natCast {x : ℚ} {m : ℕ} (h : |x - m| ≤ 1 / 2)
    (heven : |x - m| = 1 / 2 → Even m) : NearestEven Nat.cast x m := by
  have hfar : ∀ other : ℕ, other ≠ m → 1 / 2 ≤ |x - other| := by
    intro other hne
    have hdiffer : (m : ℤ) - other ≠ 0 := by omega
    have hone : (1 : ℚ) ≤ |x - m| + |x - other| :=
      calc (1 : ℚ) ≤ |(m : ℚ) - other| := by exact_mod_cast Int.one_le_abs hdiffer
        _ ≤ |(m : ℚ) - x| + |x - other| := abs_sub_le _ _ _
        _ = |x - m| + |x - other| := by rw [abs_sub_comm]
    linarith
  refine ⟨fun other => ?_, fun other hne heq => heven ?_⟩
  · by_cases hother : other = m
    · rw [hother]
    · exact h.trans (hfar other hother)
  · exact le_antisymm h (heq ▸ hfar other hne)

/-- A whole number and less than a half are rounded down. -/
theorem nearestEven_add {q : ℕ} {fraction : ℚ} (hzero : 0 ≤ fraction) (hhalf : fraction ≤ 1 / 2)
    (heven : fraction = 1 / 2 → Even q) : NearestEven Nat.cast (q + fraction) q := by
  have hdistance : |(q : ℚ) + fraction - q| = fraction := by
    rw [add_sub_cancel_left, abs_of_nonneg hzero]
  refine nearestEven_natCast ?_ ?_ <;> rw [hdistance]
  · exact hhalf
  · exact heven

/-- A whole number and more than a half are rounded up. -/
theorem nearestEven_add_one {q : ℕ} {fraction : ℚ} (hone : fraction ≤ 1) (hhalf : 1 / 2 ≤ fraction)
    (heven : fraction = 1 / 2 → Even (q + 1)) : NearestEven Nat.cast (q + fraction) (q + 1) := by
  have hdistance : |(q : ℚ) + fraction - (q + 1 : ℕ)| = 1 - fraction := by
    rw [Nat.cast_add, Nat.cast_one, add_sub_add_left_eq_sub, abs_sub_comm,
      abs_of_nonneg (sub_nonneg.2 hone)]
  refine nearestEven_natCast ?_ ?_ <;> rw [hdistance]
  · linarith
  · exact fun heq => heven (by linarith)

/-- A quotient is a whole number and a fraction. -/
theorem div_eq_add_mod_div (n : ℕ) {d : ℕ} (hd : 0 < d) :
    (n : ℚ) / d = (n / d : ℕ) + ((n % d : ℕ) : ℚ) / d := by
  have hdq : (d : ℚ) ≠ 0 := by exact_mod_cast hd.ne'
  rw [div_eq_iff hdq, add_mul, div_mul_cancel₀ _ hdq]
  exact_mod_cast (Nat.div_add_mod' n d).symm

/-- **A quotient is rounded to the nearest whole number**, and a tie goes to the even one. -/
theorem nearestEven_divNearest (n : ℕ) {d : ℕ} (hd : 0 < d) :
    NearestEven Nat.cast ((n : ℚ) / d) (divNearest n d) := by
  have hdq : (0 : ℚ) < d := by exact_mod_cast hd
  have hone : ((n % d : ℕ) : ℚ) / d ≤ 1 :=
    (div_le_one hdq).2 (by exact_mod_cast (Nat.mod_lt n hd).le)
  have hzero : 0 ≤ ((n % d : ℕ) : ℚ) / d := by positivity
  have hlt : ((n % d : ℕ) : ℚ) / d < 1 / 2 ↔ 2 * (n % d) < d := by
    rw [div_lt_div_iff₀ hdq two_pos, one_mul, mul_comm]
    exact_mod_cast Iff.rfl
  have hgt : 1 / 2 < ((n % d : ℕ) : ℚ) / d ↔ d < 2 * (n % d) := by
    rw [div_lt_div_iff₀ two_pos hdq, one_mul, mul_comm]
    exact_mod_cast Iff.rfl
  -- the remainder is compared with half of the divisor
  rw [div_eq_add_mod_div n hd, divNearest]
  split
  next h =>
    have hdown := hlt.2 h
    exact nearestEven_add hzero hdown.le fun heq => absurd heq hdown.ne
  next hnotDown =>
    split
    next h =>
      have hup := hgt.2 h
      exact nearestEven_add_one hone hup.le fun heq => absurd heq hup.ne'
    next hnotUp =>
      -- a tie goes to the even one of both neighbours
      have hle := not_lt.1 (mt hgt.1 hnotUp)
      have hge := not_lt.1 (mt hlt.1 hnotDown)
      split
      next heven => exact nearestEven_add hzero hle fun _ => Nat.even_iff.2 heven
      next hodd =>
        have hoddNumber := Nat.odd_iff.2 (Nat.mod_two_ne_zero.1 hodd)
        exact nearestEven_add_one hone hge fun _ => hoddNumber.add_one

end Lexis
