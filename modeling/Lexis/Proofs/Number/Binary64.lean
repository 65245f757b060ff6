import Mathlib.Algebra.Order.Field.Power
import Mathlib.Data.Nat.Cast.Order.Field
import Mathlib.Data.Nat.Log
import Mathlib.Tactic.FieldSimp
import Lexis.Proofs.Number.Nearest

/-!
# Doubles

The sixty-three bits of a double without its sign number the doubles upwards, and counted in least
doubles each of them is a whole number. Those whose exponents differ by little lie on a grid of such
numbers, and on a grid it is easy to round.

- `Binary64.value`, `Binary64.units`: the value of a double, and the same in least doubles.
- `Binary64.nearestEven_grid`, `Binary64.nearestEven_units`: what is nearest on a grid is nearest of
  all, and so a quotient is rounded.
- `Binary64.RoundsTo`: what a number is rounded to; `RoundsTo.mono`, `RoundsTo.eq_infinity_iff`,
  `RoundsTo.eq_zero_iff`: its order and its two ends.
- `Binary64.IsNearest`: the double nearest to a number; `RoundsTo.isNearest`.
- `Binary64.roundsTo_ofDecimal`: a number written in decimal is rounded to the nearest double.
-/

namespace Lexis.Binary64

/-- The value of the sixty-three bits of a double. The exponent zero is that of the numbers below
the least normal one, which have no leading bit. -/
def value (magnitude : ℕ) : ℚ :=
  let exponent : ℕ := magnitude / 2 ^ 52
  let significand : ℕ := magnitude % 2 ^ 52
  if exponent = 0 then significand / 2 ^ 1074
  else (2 ^ 52 + significand) * 2 ^ ((exponent : ℤ) - 1075)

/-- The value of a double, counted in least ones. -/
def units (magnitude : ℕ) : ℕ :=
  let exponent := magnitude / 2 ^ 52
  let significand := magnitude % 2 ^ 52
  if exponent = 0 then significand else (2 ^ 52 + significand) * 2 ^ (exponent - 1)

theorem value_eq (m : ℕ) : value m = units m * (2 ^ 1074)⁻¹ := by
  rw [value, units]
  split
  · rw [div_eq_mul_inv]
  next h =>
    have hexponent : ((m / 2 ^ 52 : ℕ) : ℤ) - 1075 = (m / 2 ^ 52 - 1 : ℕ) - (1074 : ℕ) := by omega
    rw [hexponent, zpow_sub₀ two_ne_zero, zpow_natCast, zpow_natCast, div_eq_mul_inv, ← mul_assoc]
    push_cast
    rfl

/-- Every double is a number of so many units of its own, which are `2 ^ k` least ones. -/
theorem exists_grid (m : ℕ) : ∃ k r, m = k * 2 ^ 52 + r ∧ (k = 0 ∨ 2 ^ 52 ≤ r) ∧ r < 2 ^ 53 := by
  by_cases hm : m < 2 ^ 53
  · exact ⟨0, m, by omega, .inl rfl, hm⟩
  · exact ⟨m / 2 ^ 52 - 1, m % 2 ^ 52 + 2 ^ 52, by omega, .inr (by omega), by omega⟩

theorem units_grid {k r : ℕ} (hlow : k = 0 ∨ 2 ^ 52 ≤ r) (hhigh : r ≤ 2 ^ 53) :
    units (k * 2 ^ 52 + r) = r * 2 ^ k := by
  rw [units]
  rcases Nat.lt_or_ge r (2 ^ 52) with hlt | hge
  · obtain rfl : k = 0 := by omega
    have hexponent : (0 * 2 ^ 52 + r) / 2 ^ 52 = 0 := by omega
    rw [if_pos hexponent]
    omega
  · rcases Nat.lt_or_ge r (2 ^ 53) with hlt | hge'
    · have hexponent : (k * 2 ^ 52 + r) / 2 ^ 52 = k + 1 := by omega
      have hsignificand : (k * 2 ^ 52 + r) % 2 ^ 52 = r - 2 ^ 52 := by omega
      rw [hexponent, hsignificand, if_neg (by omega), Nat.add_sub_cancel' hge, Nat.add_sub_cancel]
    · have hr : r = 2 ^ 52 * 2 := by omega
      have hexponent : (k * 2 ^ 52 + r) / 2 ^ 52 = k + 2 := by omega
      have hsignificand : (k * 2 ^ 52 + r) % 2 ^ 52 = 0 := by omega
      rw [hexponent, hsignificand, if_neg (by omega), Nat.add_zero, hr, Nat.mul_assoc,
        ← Nat.pow_succ']
      rfl

theorem strictMono_units : StrictMono units := by
  refine strictMono_nat_of_lt_succ fun m => ?_
  obtain ⟨k, r, rfl, hlow, hhigh⟩ := exists_grid m
  rw [Nat.add_assoc, units_grid hlow hhigh.le, units_grid (hlow.imp_right Nat.le_succ_of_le) hhigh]
  exact Nat.mul_lt_mul_of_pos_right (Nat.lt_succ_self r) (Nat.two_pow_pos k)

/-! ## Rounding on a grid -/

/-- Doubles whose exponents differ by little lie on a grid. What is nearest on the grid is nearest
of all, since the other doubles lie beyond its ends. -/
theorem nearestEven_grid {x : ℚ} {k r low : ℕ} (hgrid : k = 0 ∧ low = 0 ∨ low = 2 ^ 52)
    (hlow : (low : ℚ) * 2 ^ k ≤ x) (hhigh : x ≤ (2 ^ 53 : ℕ) * 2 ^ k)
    (hr : NearestEven Nat.cast (x * (2 ^ k)⁻¹) r) :
    NearestEven (fun n => units n) x (k * 2 ^ 52 + r) := by
  have hpow : (0 : ℚ) < 2 ^ k := by positivity
  have hunits : ∀ s, low ≤ s → s ≤ 2 ^ 53 → (units (k * 2 ^ 52 + s) : ℚ) = s * 2 ^ k := by
    intro s hs hs'
    rw [units_grid (hgrid.imp And.left fun h => h ▸ hs) hs']
    push_cast
    rfl
  -- rounding is monotone, so it does not leave the grid
  have hlowr : low ≤ r := (NearestEven.self Nat.strictMono_cast low).mono Nat.strictMono_cast hr
    ((le_mul_inv_iff₀ hpow).2 hlow)
  have hrhigh : r ≤ 2 ^ 53 := hr.mono Nat.strictMono_cast (.self Nat.strictMono_cast (2 ^ 53))
    ((mul_inv_le_iff₀ hpow).2 hhigh)
  have hscaled := hr.scale hpow
  rw [inv_mul_cancel_right₀ hpow.ne'] at hscaled
  have hstart : (units (k * 2 ^ 52 + low) : ℚ) ≤ x := by
    rwa [hunits low le_rfl (hlowr.trans hrhigh)]
  have hend : x ≤ units (k * 2 ^ 52 + 2 ^ 53) := by
    rwa [hunits (2 ^ 53) (hlowr.trans hrhigh) le_rfl]
  have hmono : StrictMono fun n => (units n : ℚ) := Nat.strictMono_cast.comp strictMono_units
  -- what remains is to compare with doubles on the grid
  refine .of_between hmono hstart hend ?_ ?_
  · intro other hlow' hhigh'
    obtain ⟨s, rfl⟩ := Nat.exists_eq_add_of_le (Nat.le_of_add_right_le hlow')
    rw [hunits r hlowr hrhigh, hunits s (by omega) (by omega)]
    exact hscaled.le s
  · intro other hlow' hhigh' hne heq
    obtain ⟨s, rfl⟩ := Nat.exists_eq_add_of_le (Nat.le_of_add_right_le hlow')
    rw [hunits r hlowr hrhigh, hunits s (by omega) (by omega)] at heq
    have heven := hscaled.even s (fun h => hne (by rw [h])) heq
    -- the doubles of the grid are numbered from an even number on
    exact (Nat.even_mul.2 (.inr (by decide))).add heven

/-- **A quotient is rounded to the nearest double**, as if exponents had no end. The grid is chosen
so that the quotient needs fifty-three bits on it, or is the finest one. -/
theorem nearestEven_units (n : ℕ) {d k : ℕ} (hd : 0 < d) (hk : k = (n / d).log2 - 52) :
    NearestEven (fun n => units n) ((n : ℚ) / d) (k * 2 ^ 52 + divNearest n (d * 2 ^ k)) := by
  have hdq : (0 : ℚ) < d := by exact_mod_cast hd
  have hpow : 0 < d * 2 ^ k := Nat.mul_pos hd (Nat.two_pow_pos k)
  have hquotient : (n : ℚ) / d * (2 ^ k)⁻¹ = n / (d * 2 ^ k : ℕ) := by
    rw [Nat.cast_mul, Nat.cast_pow, Nat.cast_ofNat, div_mul_eq_div_div]
    exact (div_eq_mul_inv _ _).symm
  have hfloor : (n : ℚ) / d < (n / d : ℕ) + 1 := by
    rw [div_lt_iff₀ hdq, mul_comm]
    exact_mod_cast Nat.lt_mul_div_succ n hd
  -- the quotient lies below the end of the grid
  have hhigh : n / d + 1 ≤ 2 ^ 53 * 2 ^ k := by
    rw [← Nat.pow_add]
    have hbits : (n / d).log2 + 1 ≤ 53 + k := by omega
    exact (Nat.lt_log2_self).trans_le (Nat.pow_le_pow_right two_pos hbits)
  have hle : (n : ℚ) / d ≤ (2 ^ 53 : ℕ) * 2 ^ k :=
    hfloor.le.trans (by exact_mod_cast hhigh)
  have hround := nearestEven_divNearest n hpow
  rw [← hquotient] at hround
  rcases Nat.lt_or_ge 52 (n / d).log2 with hlarge | hsmall
  · -- with fifty-three bits or more it lies behind the start of a grid
    have hne : n / d ≠ 0 := by
      intro h
      rw [h] at hlarge
      exact absurd hlarge (by decide)
    have hlow : 2 ^ 52 * 2 ^ k ≤ n / d := by
      rw [← Nat.pow_add, hk, Nat.add_sub_cancel' hlarge.le]
      exact Nat.log2_self_le hne
    refine nearestEven_grid (.inr rfl) ?_ hle hround
    calc ((2 ^ 52 : ℕ) : ℚ) * 2 ^ k ≤ (n / d : ℕ) := by exact_mod_cast hlow
      _ ≤ n / d := Nat.cast_div_le
  · -- with fewer it is on the finest grid
    have hzero : k = 0 := by omega
    refine nearestEven_grid (.inl ⟨hzero, rfl⟩) ?_ hle hround
    rw [Nat.cast_zero, zero_mul]
    positivity

/-! ## Rounding to doubles -/

theorem strictMono_value : StrictMono value := by
  intro m n h
  rw [value_eq, value_eq]
  have hunits : (units m : ℚ) < units n := by exact_mod_cast strictMono_units h
  exact mul_lt_mul_of_pos_right hunits (by positivity)

theorem value_of_lt {m : ℕ} (h : m < 2 ^ 52) : value m = m / 2 ^ 1074 := by
  rw [value, if_pos (Nat.div_eq_of_lt h), Nat.mod_eq_of_lt h]

theorem value_of_exponent {m e : ℕ} (h : m / 2 ^ 52 = e + 1075) :
    value m = (2 ^ 52 + (m % 2 ^ 52 : ℕ)) * 2 ^ e := by
  have hexponent : ((e + 1075 : ℕ) : ℤ) - 1075 = e := by omega
  rw [value, h, if_neg (by omega), hexponent, zpow_natCast]

/-- The value that infinity would have if exponents had no end. -/
theorem value_infinity : value infinity = 2 ^ 1024 := by
  have hsignificand : infinity % 2 ^ 52 = 0 := by decide
  rw [value_of_exponent (e := 972) (by decide), hsignificand, Nat.cast_zero, add_zero, ← pow_add]

theorem value_greatest : value (infinity - 1) = 2 ^ 1024 - 2 ^ 971 := by
  have hsignificand : (infinity - 1) % 2 ^ 52 = 2 ^ 52 - 1 := by decide
  have hleading : (2 ^ 52 + ((2 ^ 52 - 1 : ℕ) : ℚ)) = 2 ^ 53 - 1 := by norm_num
  rw [value_of_exponent (e := 971) (by decide), hsignificand, hleading, sub_mul, ← pow_add, one_mul]

/-- A magnitude is what a number is rounded to: to nearest as if exponents had no end, and from the
value on that infinity would have then, to infinity. -/
def RoundsTo (v : ℚ) (m : ℕ) : Prop :=
  ∃ wide, NearestEven value v wide ∧ m = min infinity wide

theorem cast_shiftLeft (n k : ℕ) : ((n <<< k : ℕ) : ℚ) = n * 2 ^ k := by
  rw [Nat.shiftLeft_eq, Nat.cast_mul, Nat.cast_pow, Nat.cast_ofNat]

theorem roundsTo_nearest (n : ℕ) {d : ℕ} (hd : 0 < d) : RoundsTo (n / d) (nearest n d) := by
  have hunits := (nearestEven_units (n <<< 1074) hd rfl).scale (c := (2 ^ 1074)⁻¹) (by positivity)
  have hvalue : (fun n => (units n : ℚ) * (2 ^ 1074)⁻¹) = value := funext fun m => (value_eq m).symm
  have hquotient : ((n <<< 1074 : ℕ) : ℚ) / d * (2 ^ 1074)⁻¹ = n / d := by
    rw [cast_shiftLeft, mul_div_right_comm]
    exact mul_inv_cancel_right₀ (by positivity) _
  rw [hvalue, hquotient] at hunits
  refine ⟨_, hunits, ?_⟩
  rw [nearest, Nat.shiftLeft_eq d, Nat.shiftLeft_eq _ 52]

namespace RoundsTo

variable {v w : ℚ} {m n : ℕ}

/-- Greater numbers are rounded to greater doubles, or to the same. -/
theorem mono (hm : RoundsTo v m) (hn : RoundsTo w n) (h : v ≤ w) : m ≤ n := by
  obtain ⟨wide, hwide, rfl⟩ := hm
  obtain ⟨other, hother, rfl⟩ := hn
  exact min_le_min le_rfl (hwide.mono strictMono_value hother h)

theorem unique (hm : RoundsTo v m) (hn : RoundsTo v n) : m = n :=
  Nat.le_antisymm (hm.mono hn le_rfl) (hn.mono hm le_rfl)

theorem le_infinity (h : RoundsTo v m) : m ≤ infinity := by
  obtain ⟨wide, -, rfl⟩ := h
  exact min_le_left _ _

/-- Infinity begins in the middle between the greatest finite double, which is odd, and the value
that infinity would have. -/
theorem eq_infinity_iff (h : RoundsTo v m) : m = infinity ↔ 2 ^ 1024 - 2 ^ 970 ≤ v := by
  have hmiddle : value (infinity - 1) + value (infinity - 1 + 1) = 2 * (2 ^ 1024 - 2 ^ 970) := by
    have hnext : infinity - 1 + 1 = infinity := by decide
    have hsum : ∀ a b : ℚ, a - 2 * b + a = 2 * (a - b) := fun a b => by ring
    rw [hnext, value_greatest, value_infinity, pow_succ' 2 970]
    exact hsum _ _
  obtain ⟨wide, hwide, rfl⟩ := h
  have hiff := hwide.lt_iff_of_odd strictMono_value (n := infinity - 1) (by decide)
  rw [hmiddle, mul_le_mul_iff_right₀ two_pos] at hiff
  have hpos : 0 < infinity := by decide
  rw [min_eq_left_iff, ← hiff]
  omega

/-- Zero ends in the middle between zero, which is even, and the least double. -/
theorem eq_zero_iff (h : RoundsTo v m) : m = 0 ↔ v ≤ 1 / 2 ^ 1075 := by
  have hmiddle : value 0 + value (0 + 1) = 2 * (1 / 2 ^ 1075) := by
    have hhalf : ∀ a : ℚ, 1 / a = 2 * (1 / (2 * a)) := fun a => by
      rw [mul_one_div, div_mul_cancel_left₀ two_ne_zero, one_div]
    rw [value_of_lt (by decide), value_of_lt (by decide), Nat.cast_zero, zero_div, zero_add,
      zero_add, Nat.cast_one, pow_succ' 2 1074]
    exact hhalf _
  obtain ⟨wide, hwide, rfl⟩ := h
  have hiff := hwide.le_iff_of_even strictMono_value (n := 0) (by decide)
  rw [hmiddle, mul_le_mul_iff_right₀ two_pos] at hiff
  have hpos : 0 < infinity := by decide
  rw [← hiff]
  omega

end RoundsTo

/-- The double nearest to a number that is not negative. -/
structure IsNearest (v : ℚ) (m : ℕ) : Prop where
  le_infinity : m ≤ infinity
  eq_infinity_iff : m = infinity ↔ 2 ^ 1024 - 2 ^ 970 ≤ v
  le : m < infinity → ∀ other < infinity, |v - value m| ≤ |v - value other|
  even : m < infinity → ∀ other < infinity, other ≠ m → |v - value m| = |v - value other| → Even m

/-- **What a number is rounded to is the nearest double.** -/
theorem RoundsTo.isNearest {v : ℚ} {m : ℕ} (h : RoundsTo v m) : IsNearest v m := by
  refine ⟨h.le_infinity, h.eq_infinity_iff, ?_, ?_⟩ <;> obtain ⟨wide, hwide, rfl⟩ := h <;>
    intro hlt other _
  · have hmin : min infinity wide = wide := by omega
    rw [hmin]
    exact hwide.le other
  · have hmin : min infinity wide = wide := by omega
    rw [hmin]
    exact hwide.even other

/-! ## Numbers written in decimal -/

theorem exists_roundsTo {v : ℚ} (hv : 0 ≤ v) : ∃ m, RoundsTo v m := by
  refine ⟨nearest v.num.toNat v.den, ?_⟩
  have hnum : ((v.num.toNat : ℕ) : ℚ) = v.num := by
    exact_mod_cast Int.toNat_of_nonneg (Rat.num_nonneg.2 hv)
  have hround := roundsTo_nearest v.num.toNat v.den_pos
  rwa [hnum, Rat.num_div_den] at hround

theorem two_pow_le_ten_pow : (2 : ℚ) ^ 1023 ≤ 10 ^ 308 :=
  calc (2 : ℚ) ^ 1023 = (2 ^ 93) ^ 11 := by rw [← pow_mul]
    _ ≤ (10 ^ 28) ^ 11 := pow_le_pow_left₀ (by positivity) (by norm_num) 11
    _ = 10 ^ 308 := by rw [← pow_mul]

theorem decimalLength_eq (n : ℕ) : decimalLength n = Nat.log 10 n + 1 := by
  induction n using decimalLength.induct with
  | case1 n h => rw [decimalLength, if_pos h, Nat.log_of_lt h]
  | case2 n h ih =>
    rw [decimalLength, if_neg h, ih, Nat.log_of_one_lt_of_le (by decide) (Nat.le_of_not_lt h)]

/-- From `10 ^ 309` on a number is infinite. -/
theorem roundsTo_infinity {v : ℚ} (hv : 10 ^ 309 ≤ v) : RoundsTo v infinity := by
  have hpow : (0 : ℚ) ≤ 10 ^ 309 := by positivity
  obtain ⟨m, hm⟩ := exists_roundsTo (hpow.trans hv)
  have hle : (2 : ℚ) ^ 1024 - 2 ^ 970 ≤ v :=
    calc (2 : ℚ) ^ 1024 - 2 ^ 970 ≤ 2 ^ 1024 := sub_le_self _ (by positivity)
      _ = 2 * 2 ^ 1023 := pow_succ' 2 1023
      _ ≤ 10 * 10 ^ 308 := mul_le_mul (by norm_num) two_pow_le_ten_pow (by positivity) (by norm_num)
      _ = 10 ^ 309 := (pow_succ' 10 308).symm
      _ ≤ v := hv
  rwa [hm.eq_infinity_iff.2 hle] at hm

/-- Up to `10 ^ -324` a number is zero. -/
theorem roundsTo_zero {v : ℚ} (hv : 0 ≤ v) (hle : v ≤ (10 ^ 324)⁻¹) : RoundsTo v 0 := by
  obtain ⟨m, hm⟩ := exists_roundsTo hv
  have hpow : (2 : ℚ) ^ 1075 ≤ 10 ^ 324 :=
    calc (2 : ℚ) ^ 1075 = 2 ^ 1023 * 2 ^ 52 := by rw [← pow_add]
      _ ≤ 10 ^ 308 * 10 ^ 16 :=
        mul_le_mul two_pow_le_ten_pow (by norm_num) (by positivity) (by positivity)
      _ = 10 ^ 324 := by rw [← pow_add]
  have hinv := inv_anti₀ (by positivity) hpow
  rw [← one_div (2 ^ 1075 : ℚ)] at hinv
  rwa [hm.eq_zero_iff.2 (hle.trans hinv)] at hm

/-- A number has as many digits as it has before the point when its exponent is added to them. -/
theorem pow_decimalLength_le {digits : ℕ} (h : digits ≠ 0) (exponent : ℤ) :
    (10 : ℚ) ^ (decimalLength digits + exponent - 1) ≤ digits * 10 ^ exponent ∧
      digits * 10 ^ exponent ≤ (10 : ℚ) ^ (decimalLength digits + exponent) := by
  have hne : (10 : ℚ) ≠ 0 := by norm_num
  have hlow : (10 : ℚ) ^ (Nat.log 10 digits : ℤ) ≤ digits := by
    rw [zpow_natCast]
    exact_mod_cast Nat.pow_log_le_self 10 h
  have hhigh : (digits : ℚ) ≤ 10 ^ ((Nat.log 10 digits : ℤ) + 1) := by
    have hlt := Nat.lt_pow_succ_log_self (b := 10) (by decide) digits
    exact_mod_cast hlt.le
  have hpow : (0 : ℚ) ≤ 10 ^ exponent := by positivity
  have hlength : (decimalLength digits : ℤ) = Nat.log 10 digits + 1 := by
    rw [decimalLength_eq]
    rfl
  have hfirst : (decimalLength digits : ℤ) + exponent - 1 = Nat.log 10 digits + exponent := by
    omega
  rw [hfirst, hlength, zpow_add₀ hne, zpow_add₀ hne _ exponent]
  exact ⟨mul_le_mul_of_nonneg_right hlow hpow, mul_le_mul_of_nonneg_right hhigh hpow⟩

/-- **A number written in decimal is rounded to the nearest double.** -/
theorem roundsTo_ofDecimal (digits : ℕ) (exponent : ℤ) :
    RoundsTo (digits * 10 ^ exponent) (ofDecimal digits exponent) := by
  rw [ofDecimal]
  split
  next h =>
    rw [h, Nat.cast_zero, zero_mul]
    exact roundsTo_zero le_rfl (by positivity)
  next h =>
    obtain ⟨hlow, hhigh⟩ := pow_decimalLength_le h exponent
    split
    -- the number is too large for its digits to be looked at
    next hlarge =>
      refine roundsTo_infinity (le_trans ?_ hlow)
      rw [← zpow_natCast]
      exact zpow_le_zpow_right₀ (by norm_num) (by omega)
    next =>
      split
      -- or too small
      next hsmall =>
        refine roundsTo_zero (by positivity) (hhigh.trans ?_)
        rw [← zpow_natCast, ← zpow_neg]
        exact zpow_le_zpow_right₀ (by norm_num) hsmall
      next =>
        split
        -- a whole number
        next hnonneg =>
          obtain ⟨e, rfl⟩ := Int.eq_ofNat_of_zero_le hnonneg
          have hround := roundsTo_nearest (digits * 10 ^ e) one_pos
          rw [Nat.cast_one, div_one, Nat.cast_mul, Nat.cast_pow] at hround
          exact hround
        -- a fraction by a power of ten
        next hneg =>
          obtain ⟨e, rfl⟩ := Int.exists_eq_neg_ofNat (Int.le_of_lt (not_le.1 hneg))
          have hround := roundsTo_nearest digits (Nat.pow_pos (n := e) (show 0 < 10 by decide))
          rw [Nat.cast_pow] at hround
          rw [zpow_neg, zpow_natCast, ← div_eq_mul_inv, neg_neg, Int.toNat_natCast]
          exact hround

end Lexis.Binary64
