import Lexis.Piece.Basic
import Lexis.Proofs.Text.Search

/-!
# The language of decimal literals

- `Digits.IsRun`: a digit, then digits and underscores.
- `IsMantissa`: a run, or two with a point between them.
- `IsDecimal`: a mantissa, with or without an exponent.
- `Mantissa.isLongest_read`: reading a mantissa takes the longest there is, so a point without a
  digit behind it is left alone.
- `Piece.decimal_cases`: a decimal is read as the longest there is, unless its longest mantissa is
  followed by a marker without digits.
-/

namespace Lexis

/-! ## Runs -/

namespace Digits

/-- A digit, then digits and underscores. -/
def IsRun (run : List Char) : Prop :=
  ∃ c rest, run = c :: rest ∧ c.isDigit = true ∧ ∀ d ∈ rest, isRunChar d = true

variable {run rest s : List Char}

theorem isRunChar_of_isDigit {c : Char} (hc : c.isDigit = true) : isRunChar c = true := by
  rw [isRunChar, hc, Bool.true_or]

theorem IsRun.isRunChar (h : IsRun run) : ∀ c ∈ run, Digits.isRunChar c = true := by
  obtain ⟨c, rest, rfl, hc, hrest⟩ := h
  intro d hd
  rcases List.mem_cons.1 hd with rfl | hd
  · exact isRunChar_of_isDigit hc
  · exact hrest d hd

theorem isRun_of_read? (h : read? s = some (run, rest)) :
    IsRun run ∧ ∀ c, rest.head? = some c → isRunChar c = false := by
  cases s with
  | nil => exact absurd h (by simp [read?])
  | cons c t =>
    rw [read?] at h
    split at h
    next hc =>
      obtain ⟨rfl, rfl⟩ := Prod.mk.inj (Option.some.inj h)
      exact ⟨⟨c, _, rfl, hc, fun d hd => Text.of_mem_takeWhile hd⟩,
        fun d hd => Text.head_dropWhile hd⟩
    · exact absurd h (by simp)

theorem read?_eq_none_iff : read? s = none ↔ ∀ c, s.head? = some c → c.isDigit = false := by
  cases s with
  | nil => exact ⟨fun _ c hc => absurd hc (by simp), fun _ => rfl⟩
  | cons c t =>
    rw [read?]
    split
    next hc => exact ⟨fun h => absurd h (by simp), fun h => absurd (h c rfl) (by rw [hc]; decide)⟩
    next hc =>
      refine ⟨fun _ d hd => ?_, fun _ => rfl⟩
      obtain rfl := Option.some.inj hd
      exact Bool.eq_false_iff.2 hc

/-- **A run is read as the longest there is.** -/
theorem isLongest_read? (h : read? s = some (run, rest)) : Text.IsLongest IsRun run s := by
  obtain ⟨hrun, -⟩ := isRun_of_read? h
  refine Text.isLongest_of_isPrefix hrun ⟨rest, append_of_read? h⟩ ?_
  intro other hother hs
  cases s with
  | nil => exact absurd h (by simp [read?])
  | cons c t =>
    rw [read?] at h
    split at h
    next hc =>
      obtain ⟨rfl, -⟩ := Prod.mk.inj (Option.some.inj h)
      have hle := Text.isPrefix_takeWhile hother.isRunChar hs
      rwa [List.takeWhile_cons_of_pos (isRunChar_of_isDigit hc)] at hle
    · exact absurd h (by simp)

/-- Where a run stands, one is read. -/
theorem exists_read?_of_isRun (h : IsRun run) (hs : run <+: s) :
    ∃ longest rest, read? s = some (longest, rest) ∧ run <+: longest := by
  obtain ⟨c, tail, hrun, hc, -⟩ := id h
  cases hread : read? s with
  | none =>
    obtain ⟨rest, rfl⟩ := hs
    rw [hrun] at hread
    exact absurd (read?_eq_none_iff.1 hread c rfl) (by rw [hc]; decide)
  | some found =>
    obtain ⟨longest, rest⟩ := found
    have hlongest := isLongest_read? hread
    exact ⟨longest, rest, rfl,
      List.prefix_of_prefix_length_le hs hlongest.isPrefix (hlongest.length_le run h hs)⟩

/-- A run is all that is read of it where the text after it does not go on with it. -/
theorem read?_append (h : IsRun run) (hrest : ∀ c, rest.head? = some c → isRunChar c = false) :
    read? (run ++ rest) = some (run, rest) := by
  obtain ⟨c, tail, rfl, hc, htail⟩ := h
  rw [List.cons_append, read?, if_pos hc, Text.takeWhile_append_of_head htail hrest,
    Text.dropWhile_append_of_head htail hrest]

end Digits

open Digits (IsRun isRunChar)

/-! ## Mantissas -/

/-- A run of digits, or two with a point between them. -/
def IsMantissa (text : List Char) : Prop :=
  IsRun text ∨ ∃ whole fraction, IsRun whole ∧ IsRun fraction ∧ text = whole ++ '.' :: fraction

/-- A mantissa begins with a digit. -/
theorem IsMantissa.exists_cons {text : List Char} (h : IsMantissa text) :
    ∃ c rest, text = c :: rest ∧ c.isDigit = true := by
  rcases h with ⟨c, rest, rfl, hc, -⟩ | ⟨whole, fraction, ⟨c, rest, rfl, hc, -⟩, -, rfl⟩
  · exact ⟨c, rest, rfl, hc⟩
  · exact ⟨c, rest ++ '.' :: fraction, rfl, hc⟩

/-- A mantissa is written with digits, underscores and a point. -/
theorem IsMantissa.mem {text : List Char} (h : IsMantissa text) :
    ∀ c ∈ text, isRunChar c = true ∨ c = '.' := by
  intro c hc
  rcases h with h | ⟨whole, fraction, hwhole, hfraction, rfl⟩
  · exact .inl (h.isRunChar c hc)
  · rcases List.mem_append.1 hc with hc | hc
    · exact .inl (hwhole.isRunChar c hc)
    · rcases List.mem_cons.1 hc with hc | hc
      · exact .inr hc
      · exact .inl (hfraction.isRunChar c hc)

/-- A fraction is nothing, or a point and a run. -/
theorem Fraction.read_cases (s : List Char) :
    Fraction.read s = ([], s) ∨
      ∃ t run rest, s = '.' :: t ∧ Digits.read? t = some (run, rest) ∧
        Fraction.read s = ('.' :: run, rest) := by
  unfold Fraction.read
  split
  next t =>
    split
    next run rest hread => exact .inr ⟨t, run, rest, rfl, hread, rfl⟩
    · exact .inl rfl
  · exact .inl rfl

/-- A point is left alone where no digit follows it. -/
theorem Fraction.read_eq_nil {s : List Char} (h : ∀ d t, s = '.' :: d :: t → d.isDigit = false) :
    Fraction.read s = ([], s) := by
  rcases Fraction.read_cases s with hread | ⟨t, run, rest, rfl, hread, -⟩
  · exact hread
  · have hnone : Digits.read? t = none := by
      refine Digits.read?_eq_none_iff.2 fun d hd => ?_
      obtain ⟨u, rfl⟩ := List.head?_eq_some_iff.1 hd
      exact h d u rfl
    rw [hnone] at hread
    exact absurd hread (by simp)

/-- Two runs with a point between them are part of the longest run and the fraction read after it:
the run before the point goes on for as long as there are digits, so it is the longest one. -/
theorem Fraction.isPrefix_append_read {whole fraction run rest : List Char} (hwhole : IsRun whole)
    (hfraction : IsRun fraction) (hrun : Text.IsLongest IsRun run (run ++ rest))
    (hs : whole ++ '.' :: fraction <+: run ++ rest) :
    whole ++ '.' :: fraction <+: run ++ (Fraction.read rest).1 := by
  have hpre : whole <+: run ++ rest := (List.prefix_append whole ('.' :: fraction)).trans hs
  have hle := hrun.length_le whole hwhole hpre
  obtain ⟨more, rfl⟩ := List.prefix_of_prefix_length_le hpre hrun.isPrefix hle
  rw [List.append_assoc, List.prefix_append_right_inj] at hs
  cases more with
  | cons d more =>
    obtain rfl : '.' = d := (List.cons_prefix_cons.1 hs).1
    have hmem : '.' ∈ whole ++ '.' :: more := List.mem_append_right whole List.mem_cons_self
    exact absurd (hrun.mem.isRunChar '.' hmem) (by decide)
  | nil =>
    obtain ⟨after, rfl⟩ : ∃ after, rest = '.' :: after := by
      obtain ⟨after, hafter⟩ := hs
      exact ⟨fraction ++ after, hafter.symm⟩
    have hfits : fraction <+: after := (List.cons_prefix_cons.1 hs).2
    obtain ⟨longest, last, hread, hle⟩ := Digits.exists_read?_of_isRun hfraction hfits
    rw [Fraction.read, hread, List.append_nil]
    exact (List.prefix_append_right_inj whole).2 ((List.prefix_cons_inj '.').2 hle)

/-- **A mantissa is read as the longest there is.** -/
theorem Mantissa.isLongest_read {c : Char} (hc : c.isDigit = true) (t : List Char) :
    Text.IsLongest IsMantissa (Mantissa.read (c :: t)).1 (c :: t) := by
  obtain ⟨run, rest, hread, -⟩ :=
    Digits.exists_read?_of_isRun ⟨c, [], rfl, hc, fun d hd => absurd hd List.not_mem_nil⟩
      (show [c] <+: c :: t from ⟨t, rfl⟩)
  have hrun := Digits.isLongest_read? hread
  have hsplit := Digits.append_of_read? hread
  have heq : (Mantissa.read (c :: t)).1 = run ++ (Fraction.read rest).1 := by
    rw [Mantissa.read, hread]
  refine Text.isLongest_of_isPrefix ?_ ⟨_, Mantissa.append_read (c :: t)⟩ ?_
  · rw [heq]
    rcases Fraction.read_cases rest with hfrac | ⟨u, fraction, after, -, hu, hfrac⟩
    · rw [hfrac, List.append_nil]
      exact .inl hrun.mem
    · rw [hfrac]
      exact .inr ⟨run, fraction, hrun.mem, (Digits.isRun_of_read? hu).1, rfl⟩
  · rw [heq, ← hsplit]
    rw [← hsplit] at hrun
    rintro other (hother | ⟨whole, fraction, hwhole, hfraction, rfl⟩) hs
    · -- a single run is part of the longest one
      have hle := hrun.length_le other hother hs
      exact (List.prefix_of_prefix_length_le hs hrun.isPrefix hle).trans (List.prefix_append _ _)
    · exact Fraction.isPrefix_append_read hwhole hfraction hrun hs

/-- A mantissa is all that is read of it where the text after it does not go on with its digits, nor
gives a single run a fraction. -/
theorem Mantissa.read_append {mantissa rest : List Char} (h : IsMantissa mantissa)
    (hrest : ∀ c, rest.head? = some c → isRunChar c = false)
    (hpoint : IsRun mantissa → ∀ d t, rest = '.' :: d :: t → d.isDigit = false) :
    Mantissa.read (mantissa ++ rest) = (mantissa, rest) := by
  rcases h with hrun | ⟨whole, fraction, hwhole, hfraction, rfl⟩
  · rw [Mantissa.read, Digits.read?_append hrun hrest]
    dsimp only
    rw [Fraction.read_eq_nil (hpoint hrun), List.append_nil]
  · have hstop : ∀ c, ('.' :: (fraction ++ rest)).head? = some c → isRunChar c = false := by
      rintro c hc
      obtain rfl := Option.some.inj hc
      decide
    rw [List.append_assoc, List.cons_append, Mantissa.read, Digits.read?_append hwhole hstop]
    dsimp only
    rw [Fraction.read, Digits.read?_append hfraction hrest]

/-- A point without a digit after it is no part of a mantissa. -/
example : Mantissa.read ['1', '.', 'e'] = (['1'], ['.', 'e']) := by decide

/-! ## Decimals -/

/-- A marker and a run of digits. -/
def IsExponent (text : List Char) : Prop :=
  ∃ marker run, text = marker :: run ∧ (marker = 'e' ∨ marker = 'E') ∧ IsRun run

/-- A mantissa, with or without an exponent. -/
def IsDecimal (text : List Char) : Prop :=
  ∃ mantissa exponent, IsMantissa mantissa ∧ (exponent = [] ∨ IsExponent exponent) ∧
    text = mantissa ++ exponent

/-- A decimal begins with a digit. -/
theorem IsDecimal.exists_cons {text : List Char} (h : IsDecimal text) :
    ∃ c rest, text = c :: rest ∧ c.isDigit = true := by
  obtain ⟨mantissa, exponent, hmantissa, -, rfl⟩ := h
  obtain ⟨c, rest, rfl, hc⟩ := hmantissa.exists_cons
  exact ⟨c, rest ++ exponent, rfl, hc⟩

/-- A decimal begins with a mantissa, and what follows the longest mantissa that a text begins with
follows that of every decimal with an exponent. -/
theorem IsDecimal.isPrefix_or {text mantissa rest : List Char} (h : IsDecimal text)
    (hm : Text.IsLongest IsMantissa mantissa (mantissa ++ rest)) (hs : text <+: mantissa ++ rest) :
    text <+: mantissa ∨ ∃ exponent, IsExponent exponent ∧ exponent <+: rest ∧
      text = mantissa ++ exponent := by
  obtain ⟨front, exponent, hfront, hexponent, rfl⟩ := h
  have hpre : front <+: mantissa ++ rest := (List.prefix_append front exponent).trans hs
  have hle := hm.length_le front hfront hpre
  obtain ⟨more, rfl⟩ := List.prefix_of_prefix_length_le hpre hm.isPrefix hle
  rcases hexponent with rfl | hexponent
  · left
    rw [List.append_nil]
    exact List.prefix_append _ _
  · right
    rw [List.append_assoc, List.prefix_append_right_inj] at hs
    cases more with
    | nil => exact ⟨exponent, hexponent, hs, by rw [List.append_nil]⟩
    | cons d more =>
      -- no mantissa holds the marker of an exponent
      obtain ⟨marker, run, rfl, hmarker, -⟩ := hexponent
      obtain rfl : marker = d := (List.cons_prefix_cons.1 hs).1
      have hmem : marker ∈ front ++ marker :: more := by simp
      have hne := hm.mem.mem marker hmem
      rcases hmarker with rfl | rfl <;> exact absurd hne (by decide)

/-- A mantissa without an exponent after it is the longest decimal. -/
theorem isLongest_mantissa {mantissa rest : List Char}
    (hm : Text.IsLongest IsMantissa mantissa (mantissa ++ rest))
    (hnone : ∀ exponent, IsExponent exponent → ¬exponent <+: rest) :
    Text.IsLongest IsDecimal mantissa (mantissa ++ rest) := by
  have hmem : IsDecimal mantissa := ⟨mantissa, [], hm.mem, .inl rfl, (List.append_nil _).symm⟩
  refine Text.isLongest_of_isPrefix hmem hm.isPrefix ?_
  intro other hother hs
  rcases hother.isPrefix_or hm hs with h | ⟨exponent, hexponent, hafter, -⟩
  · exact h
  · exact absurd hafter (hnone exponent hexponent)

/-- A mantissa and the longest exponent after it are the longest decimal. -/
theorem isLongest_mantissa_append {mantissa run rest : List Char} {marker : Char}
    (hm : Text.IsLongest IsMantissa mantissa (mantissa ++ marker :: rest))
    (hmarker : marker = 'e' ∨ marker = 'E') (hrun : Text.IsLongest IsRun run rest) :
    Text.IsLongest IsDecimal (mantissa ++ marker :: run) (mantissa ++ marker :: rest) := by
  have hmem : IsDecimal (mantissa ++ marker :: run) :=
    ⟨mantissa, marker :: run, hm.mem, .inr ⟨marker, run, rfl, hmarker, hrun.mem⟩, rfl⟩
  refine Text.isLongest_of_isPrefix hmem ?_ ?_
  · rw [List.prefix_append_right_inj, List.prefix_cons_inj]
    exact hrun.isPrefix
  · intro other hother hs
    rcases hother.isPrefix_or hm hs with
      h | ⟨exponent, ⟨marker', run', rfl, -, hrun'⟩, hafter, rfl⟩
    · exact h.trans (List.prefix_append _ _)
    · obtain ⟨rfl, hrest⟩ := List.cons_prefix_cons.1 hafter
      rw [List.prefix_append_right_inj, List.prefix_cons_inj]
      exact List.prefix_of_prefix_length_le hrest hrun.isPrefix (hrun.length_le run' hrun' hrest)

namespace Piece

/-- **A decimal is read as the longest there is**, unless its longest mantissa is followed by a
marker without a digit after it. -/
theorem decimal_cases {c : Char} (hc : c.isDigit = true) (t : List Char) :
    (∃ text, decimal (c :: t) = token .decimal text ∧ Text.IsLongest IsDecimal text (c :: t)) ∨
    ∃ mantissa marker rest, c :: t = mantissa ++ marker :: rest ∧
      Text.IsLongest IsMantissa mantissa (c :: t) ∧ (marker = 'e' ∨ marker = 'E') ∧
      (∀ d, rest.head? = some d → d.isDigit = false) ∧
      decimal (c :: t) =
        fault .missingExponentDigit (mantissa.length + 1) (mantissa.length + 1) := by
  have hm := Mantissa.isLongest_read hc t
  have hsplit := Mantissa.append_read (c :: t)
  rw [decimal]
  generalize c :: t = s at hm hsplit ⊢
  generalize Mantissa.read s = found at hm hsplit ⊢
  obtain ⟨mantissa, after⟩ := found
  subst hsplit
  dsimp only at hm ⊢
  split
  next =>
    -- the text ends with the mantissa
    refine .inl ⟨mantissa, rfl, isLongest_mantissa hm ?_⟩
    rintro exponent ⟨marker, run, rfl, -⟩ hafter
    exact absurd hafter (by simp)
  next marker rest =>
    by_cases hmarker : marker = 'e' ∨ marker = 'E'
    · rw [if_pos hmarker]
      split
      -- the marker has a run behind it
      next run last hread =>
        exact .inl ⟨mantissa ++ marker :: run, rfl,
          isLongest_mantissa_append hm hmarker (Digits.isLongest_read? hread)⟩
      -- the marker has none
      next hread =>
        exact .inr ⟨mantissa, marker, rest, rfl, hm, hmarker, Digits.read?_eq_none_iff.1 hread, rfl⟩
    · -- the mantissa is followed by something else
      rw [if_neg hmarker]
      refine .inl ⟨mantissa, rfl, isLongest_mantissa hm ?_⟩
      rintro exponent ⟨marker', run, rfl, hmarker', -⟩ hafter
      obtain ⟨rfl, -⟩ := List.cons_prefix_cons.1 hafter
      exact hmarker hmarker'

end Piece

end Lexis
