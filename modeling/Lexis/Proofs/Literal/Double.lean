import Mathlib.Data.Nat.Digits.Defs
import Lexis.Proofs.Literal.Runs
import Lexis.Proofs.Number.Binary64
import Lexis.Proofs.Text.Codepoint

/-!
# The doubles of decimal literals

A decimal literal denotes a number: its digits before the point and behind it, times a power of ten.
To be read to a double its runs are written out as a numeral, the numeral is read back as a whole
number and an exponent, and these are rounded. The number is the same at every step.

- `Digits.value`, `Decimal.value`, `Decimal.Denotes`: the number that digits, a decimal and a text
  are.
- `Numeral.ofText?_text`: the numeral of a decimal is read back.
- `Decimal.exists_toBinary64`: a decimal is read to the double nearest to its number.
- `Decimal.Respells`: one number written in two ways.
- `decimals_round_to_nearest`: what the text of a literal is read to.
-/

namespace Lexis

/-! ## What digits write -/

namespace Digits

/-- The number that digits write in base ten. -/
def value (run : List Char) : ℕ :=
  Nat.ofDigits 10 (run.reverse.map fun c => c.toNat - '0'.toNat)

theorem value_nil : value [] = 0 := rfl

theorem value_zero : value ['0'] = 0 := rfl

theorem value_append (run more : List Char) :
    value (run ++ more) = value run * 10 ^ more.length + value more := by
  rw [value, List.reverse_append, List.map_append, Nat.ofDigits_append, List.length_map,
    List.length_reverse, Nat.add_comm, Nat.mul_comm]
  rfl

end Digits

theorem decimalValue_eq (digits : List Char) : decimalValue digits = Digits.value digits := by
  induction digits using List.reverseRecOn with
  | nil => rfl
  | append_singleton digits c ih =>
    rw [Digits.value_append, ← ih, decimalValue, List.foldl_append]
    rfl

namespace Decimal

/-- The number that a decimal is: its digits before the point and behind it, times ten to the
exponent. A run that is absent counts as one without digits. -/
def value (decimal : Decimal) : ℚ :=
  let fraction := decimal.fraction.getD []
  (Digits.value decimal.integer + Digits.value fraction / 10 ^ fraction.length) *
    10 ^ Digits.value (decimal.exponent.getD [])

end Decimal

/-! ## Reading a numeral back -/

namespace Numeral

variable {c : Char} {s : List Char} {fraction exponent : Option (List Char)} {decimal : Decimal}

theorem readSign_of_isDigit (hc : c.isDigit = true) : readSign (c :: s) = (false, c :: s) := by
  unfold readSign
  split
  next rest h =>
    obtain rfl := (List.cons.inj h).1
    exact absurd hc (by decide)
  next rest h =>
    obtain rfl := (List.cons.inj h).1
    exact absurd hc (by decide)
  next => rfl

theorem toLower_of_isDigit (hc : c.isDigit = true) : c.toLower = c := by
  unfold Char.toLower
  refine dif_neg fun hupper => ?_
  have hletter := Text.not_isDigit_of_isAlpha (Text.isAlpha_of_isUpper (decide_eq_true hupper))
  rw [hc] at hletter
  exact absurd hletter (by decide)

/-- What begins with a digit is no word in any case. -/
theorem map_toLower_ne (hc : c.isDigit = true) {word : List Char} {d : Char}
    (hword : word.head? = some d) (hd : d.isDigit = false) : (c :: s).map Char.toLower ≠ word := by
  rintro rfl
  rw [List.map_cons, List.head?_cons, Option.some.injEq, toLower_of_isDigit hc] at hword
  exact Text.ne_of_class hc hd hword

theorem exponentOf?_introduced (h : ∀ run ∈ exponent, Digits.IsPlain run) :
    exponentOf? (Decimal.introduced 'e' exponent) = some (Digits.value (exponent.getD []) : ℤ) := by
  cases exponent with
  | none => rfl
  | some run =>
    obtain ⟨hne, hdigits⟩ := h run rfl
    obtain ⟨c, rest, rfl⟩ := List.exists_cons_of_ne_nil hne
    have hall : (c :: rest).all Char.isDigit = true := List.all_eq_true.2 hdigits
    show exponentOf? ('e' :: c :: rest) = some (Digits.value (c :: rest) : ℤ)
    rw [exponentOf?, if_pos (.inl rfl), readSign_of_isDigit (hdigits c List.mem_cons_self)]
    simp only [List.isEmpty_cons, hall, decimalValue_eq]
    rfl

/-- What introduces a run is no digit. -/
theorem head_introduced (hc : c.isDigit = false) (back : Option (List Char))
    (hs : ∀ d, s.head? = some d → d.isDigit = false) :
    ∀ d, (Decimal.introduced c back ++ s).head? = some d → d.isDigit = false := by
  intro d hd
  cases back with
  | none => exact hs d hd
  | some run =>
    obtain rfl := Option.some.inj hd
    exact hc

theorem head_exponent (exponent : Option (List Char)) :
    ∀ d, (Decimal.introduced 'e' exponent).head? = some d → d.isDigit = false := by
  have hhead := head_introduced (c := 'e') (s := []) rfl exponent fun d hd => absurd hd (by simp)
  rwa [List.append_nil] at hhead

theorem readFraction_introduced (h : ∀ run ∈ fraction, Digits.IsPlain run) :
    readFraction (Decimal.introduced '.' fraction ++ Decimal.introduced 'e' exponent) =
      (fraction.getD [], Decimal.introduced 'e' exponent) := by
  cases fraction with
  | none =>
    cases exponent with
    | none => rfl
    | some run => rfl
  | some run =>
    have hdigits := (h run rfl).2
    show readFraction ('.' :: (run ++ Decimal.introduced 'e' exponent)) = _
    rw [readFraction, Text.takeWhile_append_of_head hdigits (head_exponent exponent),
      Text.dropWhile_append_of_head hdigits (head_exponent exponent)]
    rfl

/-- A text that begins with a digit has no sign and is no word. -/
theorem ofText?_of_isDigit (hc : c.isDigit = true) :
    ofText? (c :: s) = unsigned? false (c :: s) := by
  have hnan : (c :: s).map Char.toLower ≠ "nan".toList :=
    map_toLower_ne hc (d := 'n') (by decide) rfl
  have hinf : (c :: s).map Char.toLower ≠ "inf".toList :=
    map_toLower_ne hc (d := 'i') (by decide) rfl
  have hinfinity : (c :: s).map Char.toLower ≠ "infinity".toList :=
    map_toLower_ne hc (d := 'i') (by decide) rfl
  rw [ofText?, readSign_of_isDigit hc]
  dsimp only
  rw [if_neg hnan, if_neg (not_or.2 ⟨hinf, hinfinity⟩)]

/-- The runs of a decimal are read one after the other, each up to what introduces the next. -/
theorem unsigned?_text (h : decimal.IsPlain) :
    unsigned? false decimal.text = some (.finite false
      (Digits.value (decimal.integer ++ decimal.fraction.getD []))
      (Digits.value (decimal.exponent.getD []) - (decimal.fraction.getD []).length)) := by
  obtain ⟨whole, fraction, exponent⟩ := decimal
  obtain ⟨⟨hne, hdigits⟩, hfraction, hexponent⟩ := h
  have hhead := head_introduced (c := '.') rfl fraction (head_exponent exponent)
  have hwhole : whole.isEmpty = false := List.isEmpty_eq_false_iff.2 hne
  rw [Decimal.text, List.append_assoc, unsigned?, Text.takeWhile_append_of_head hdigits hhead,
    Text.dropWhile_append_of_head hdigits hhead, readFraction_introduced hfraction]
  simp only [hwhole, Bool.false_and, exponentOf?_introduced hexponent, decimalValue_eq]
  rfl

/-- **The numeral of a decimal is read back**: its digits without the point, and an exponent that is
less by those behind it. -/
theorem ofText?_text (h : decimal.IsPlain) :
    ofText? decimal.text = some (.finite false
      (Digits.value (decimal.integer ++ decimal.fraction.getD []))
      (Digits.value (decimal.exponent.getD []) - (decimal.fraction.getD []).length)) := by
  obtain ⟨c, tail, hcons⟩ := List.exists_cons_of_ne_nil h.integer.1
  have hc : c.isDigit = true := by
    refine h.integer.2 c ?_
    rw [hcons]
    exact List.mem_cons_self
  have htext : ∃ rest, decimal.text = c :: rest := by
    rw [Decimal.text, hcons]
    exact ⟨_, rfl⟩
  obtain ⟨rest, hrest⟩ := htext
  rw [← unsigned?_text h, hrest]
  exact ofText?_of_isDigit hc

end Numeral

/-! ## Rounding a decimal -/

namespace Decimal

open Binary64 (RoundsTo)

variable {decimal : Decimal}

/-- The point of a numeral is moved behind its last digit by lowering the exponent. -/
theorem value_eq (decimal : Decimal) :
    decimal.value = (Digits.value (decimal.integer ++ decimal.fraction.getD []) : ℚ) *
      10 ^ ((Digits.value (decimal.exponent.getD []) : ℤ) - (decimal.fraction.getD []).length) := by
  have hne : (10 : ℚ) ≠ 0 := by norm_num
  rw [value, Digits.value_append, zpow_sub₀ hne, zpow_natCast, zpow_natCast]
  push_cast
  field_simp

/-- **Digits are rounded to the double nearest to their number.** -/
theorem exists_toBinary64 (h : decimal.IsPlain) :
    ∃ m, decimal.toBinary64 = .signed false m ∧ RoundsTo decimal.value m := by
  have hround := Binary64.roundsTo_ofDecimal
    (Digits.value (decimal.integer ++ decimal.fraction.getD []))
    (Digits.value (decimal.exponent.getD []) - (decimal.fraction.getD []).length)
  rw [← value_eq] at hround
  refine ⟨_, ?_, hround⟩
  rw [toBinary64, Numeral.ofText?_text h]
  rfl

/-- The number that a text denotes: the one that the digits are which it writes. -/
def Denotes (text : List Char) (v : ℚ) : Prop := ∃ decimal, Writes text decimal ∧ v = decimal.value

/-- Decimals of one number: the same one, or a second written with a zero less or with its point
farther left. Texts of the same one differ in underscores and in the case of the marker. -/
inductive Respells : Decimal → Decimal → Prop
  | same (decimal : Decimal) : Respells decimal decimal
  | leadingZero (whole : List Char) (fraction exponent : Option (List Char)) :
    Respells ⟨'0' :: whole, fraction, exponent⟩ ⟨whole, fraction, exponent⟩
  | trailingZero (whole fraction : List Char) (exponent : Option (List Char)) :
    Respells ⟨whole, some (fraction ++ ['0']), exponent⟩ ⟨whole, some fraction, exponent⟩
  | zeroFraction (whole : List Char) (exponent : Option (List Char)) :
    Respells ⟨whole, some ['0'], exponent⟩ ⟨whole, none, exponent⟩
  | movedPoint {exponent exponent' : Option (List Char)} (whole moved : List Char)
      (fraction : Option (List Char))
      (h : Digits.value (exponent'.getD []) = Digits.value (exponent.getD []) + moved.length) :
    Respells ⟨whole ++ moved, fraction, exponent⟩
      ⟨whole, some (moved ++ fraction.getD []), exponent'⟩

theorem Respells.value_eq {other : Decimal} (h : Respells decimal other) :
    decimal.value = other.value := by
  cases h with
  | same => rfl
  | leadingZero whole fraction exponent =>
    unfold value
    dsimp only
    rw [← List.singleton_append, Digits.value_append, Digits.value_zero, Nat.zero_mul, Nat.zero_add]
  | trailingZero whole fraction exponent =>
    -- the digit more is made up for by a place more
    have hshift : Digits.value (fraction ++ ['0']) = Digits.value fraction * 10 := by
      rw [Digits.value_append, Digits.value_zero]
      rfl
    unfold value
    dsimp only
    rw [Option.getD_some, Option.getD_some, hshift, List.length_append, List.length_singleton,
      pow_succ, Nat.cast_mul, Nat.cast_ofNat, mul_div_mul_right _ _ (by norm_num : (10 : ℚ) ≠ 0)]
  | zeroFraction whole exponent =>
    unfold value
    dsimp only
    rw [Option.getD_some, Option.getD_none, Digits.value_zero, Digits.value_nil, Nat.cast_zero,
      zero_div, zero_div]
  | @movedPoint exponent exponent' whole moved fraction h =>
    have hlength : ((Digits.value (exponent'.getD []) : ℕ) : ℤ) -
        (moved ++ fraction.getD []).length =
          Digits.value (exponent.getD []) - (fraction.getD []).length := by
      rw [h, List.length_append]
      omega
    rw [Decimal.value_eq, Decimal.value_eq]
    dsimp only
    rw [Option.getD_some, hlength, List.append_assoc]

end Decimal

/-! ## Literals and their doubles -/

/-- The double that a literal's text is read to. -/
def Literal.double (text : List Char) : Except LiteralError Binary64 :=
  (Literal.decimal text).map Decimal.toBinary64

namespace Decimal

open Binary64 (RoundsTo)

variable {text other : List Char} {v w : ℚ}

/-- A text denotes one number at most. -/
theorem Denotes.unique (hv : Denotes text v) (hw : Denotes text w) : v = w := by
  obtain ⟨decimal, hdecimal, rfl⟩ := hv
  obtain ⟨decimal', hdecimal', rfl⟩ := hw
  have heq := (ofText?_eq_some_iff.2 hdecimal).symm.trans (ofText?_eq_some_iff.2 hdecimal')
  rw [Option.some.inj heq]

theorem Denotes.exists_double (h : Denotes text v) :
    ∃ m, Literal.double text = .ok (.signed false m) ∧ RoundsTo v m := by
  obtain ⟨decimal, hdecimal, rfl⟩ := h
  obtain ⟨m, hm, hround⟩ := exists_toBinary64 hdecimal.isPlain
  refine ⟨m, ?_, hround⟩
  rw [Literal.double, Literal.decimal_eq_ok_iff.2 hdecimal, ← hm]
  rfl

/-- Texts that denote the same are read to the same. -/
theorem Denotes.double_eq (hv : Denotes text v) (hw : Denotes other v) :
    Literal.double text = Literal.double other := by
  obtain ⟨m, hm, hround⟩ := hv.exists_double
  obtain ⟨n, hn, hround'⟩ := hw.exists_double
  rw [hm, hn, hround.unique hround']

end Decimal

open Decimal (Denotes Writes Respells)

/-- **A decimal literal is read to the double nearest to the number that it denotes.** Every text
that scans as a decimal denotes one number, and is read to a double without a sign, which is the
nearest to that number, infinity and zero included. Greater numbers are read to greater doubles or
to the same, and one number to one double, however it is written: with underscores, with a marker of
either case, with zeros at its ends or with its point elsewhere. -/
theorem decimals_round_to_nearest :
    (∀ text, IsTokenOf .decimal text → ∃ v m, (∀ w, Denotes text w ↔ w = v) ∧
      Literal.double text = .ok (.signed false m) ∧ (Binary64.signed false m).bits = m ∧
      Binary64.IsNearest v m ∧ (m = 0 ↔ v ≤ 1 / 2 ^ 1075)) ∧
    (∀ text other v w, Denotes text v → Denotes other w → v ≤ w →
      ∃ m n, Literal.double text = .ok (.signed false m) ∧
        Literal.double other = .ok (.signed false n) ∧ m ≤ n) ∧
    (∀ text other v, Denotes text v → Denotes other v →
      Literal.double text = Literal.double other) ∧
    ∀ text other decimal decimal', Writes text decimal → Writes other decimal' →
      Respells decimal decimal' → Literal.double text = Literal.double other := by
  refine ⟨fun text htext => ?_, fun text other v w hv hw hle => ?_,
    fun text other v hv hw => hv.double_eq hw, fun text other decimal decimal' htext hother h => ?_⟩
  · obtain ⟨-, decimal, hdecimal⟩ := isTokenOf_decimal_iff.1 htext
    have hv : Denotes text decimal.value := ⟨decimal, hdecimal, rfl⟩
    obtain ⟨m, hm, hround⟩ := hv.exists_double
    refine ⟨decimal.value, m, fun w => ⟨fun hw => hw.unique hv, ?_⟩, hm, Nat.zero_add m,
      hround.isNearest, hround.eq_zero_iff⟩
    rintro rfl
    exact hv
  · -- rounding is monotone
    obtain ⟨m, hm, hround⟩ := hv.exists_double
    obtain ⟨n, hn, hround'⟩ := hw.exists_double
    exact ⟨m, n, hm, hn, hround.mono hround' hle⟩
  · -- other spellings denote the same number
    have hv : Denotes text decimal.value := ⟨decimal, htext, rfl⟩
    have hw : Denotes other decimal.value := ⟨decimal', hother, h.value_eq⟩
    exact hv.double_eq hw

/-- A text with an underscore, a point and a capital marker denotes `2 ^ 53 + 1`, which lies halfway
between two doubles. It is read to the lower one, of which the last bit is zero, and so are the same
digits without a point. -/
theorem decimals_round_to_nearest_halfway :
    Denotes "900_7199254740.993E3".toList (2 ^ 53 + 1) ∧
    Literal.double "900_7199254740.993E3".toList = .ok (.signed false 0x4340000000000000) ∧
    Binary64.IsNearest (2 ^ 53 + 1) 0x4340000000000000 ∧
    Literal.double "9007199254740993".toList = Literal.double "900_7199254740.993E3".toList := by
  have hmoved : Writes "900_7199254740.993E3".toList
      ⟨"9007199254740".toList, some "993".toList, some "3".toList⟩ :=
    Decimal.ofText?_eq_some_iff.1 (by decide +kernel)
  have hwhole : Writes "9007199254740993".toList ⟨"9007199254740993".toList, none, none⟩ :=
    Decimal.ofText?_eq_some_iff.1 (by decide +kernel)
  have hdenotes : Denotes "900_7199254740.993E3".toList (2 ^ 53 + 1) := by
    have hinteger : Digits.value "9007199254740".toList = 9007199254740 := by decide +kernel
    have hfraction : Digits.value "993".toList = 993 := by decide +kernel
    have hexponent : Digits.value "3".toList = 3 := by decide +kernel
    have hlength : "993".toList.length = 3 := rfl
    refine ⟨_, hmoved, ?_⟩
    simp only [Decimal.value, Option.getD_some, hinteger, hfraction, hexponent, hlength]
    norm_num
  have hdouble : Literal.double "900_7199254740.993E3".toList =
      .ok (.signed false 0x4340000000000000) := by
    rw [Literal.double, Literal.decimal_eq_ok_iff.2 hmoved]
    decide +kernel
  refine ⟨hdenotes, hdouble, ?_, ?_⟩
  · obtain ⟨v, m, hv, hm, -, hnearest, -⟩ :=
      decimals_round_to_nearest.1 _ (isTokenOf_decimal_iff.2 ⟨by decide, _, hmoved⟩)
    obtain rfl := (hv _).1 hdenotes
    rw [hdouble] at hm
    cases hm
    exact hnearest
  · exact decimals_round_to_nearest.2.2.2 _ _ _ _ hwhole hmoved
      (.movedPoint "9007199254740".toList "993".toList none (by decide +kernel))

end Lexis
