import Lexis.Literal.Decimal
import Lexis.Proofs.Piece.Decimal

/-!
# Decimals are cut at their point and marker

A text in the language of decimal literals is cut where the language has a point and a marker, since
neither occurs inside a run of digits. Cutting succeeds for no other text.

- `Decimal.cut_append`, `Decimal.cut_of_all`, `Decimal.cut_cases`: cutting at the first codepoint of
  a kind.
- `Digits.IsPlain`, `Digits.plain`: runs of digits alone, and the one that is left of a run without
  its underscores.
- `Decimal.Writes`: the texts that write the digits of a decimal.
- `Decimal.ofText?_eq_some_iff`: what a text is cut into is what it writes.
- `Decimal.isDecimal_iff`: the decimal literals are the texts that write something.
-/

namespace Lexis

/-! ## Runs -/

namespace Digits

/-- A run of ASCII digits, and of nothing else. -/
def IsPlain (run : List Char) : Prop := run ≠ [] ∧ ∀ c ∈ run, c.isDigit = true

/-- A run without its underscores. -/
def plain (run : List Char) : List Char := run.filter (· != '_')

variable {run : List Char}

theorem isDigit_of_isRunChar {c : Char} (h : isRunChar c = true) (hc : c ≠ '_') :
    c.isDigit = true := by
  rcases Bool.or_eq_true_iff.1 h with hdigit | hunder
  · exact hdigit
  · exact absurd (beq_iff_eq.1 hunder) hc

/-- Without underscores digits alone are left of a run, the first one among them. -/
theorem IsRun.isPlain_plain (h : IsRun run) : IsPlain (plain run) := by
  obtain ⟨c, rest, hrun, hc, -⟩ := id h
  have hne : (c != '_') = true := bne_iff_ne.2 fun heq => absurd (heq ▸ hc) (by decide)
  refine ⟨?_, fun d hd => ?_⟩
  · rw [plain, hrun, List.filter_cons, if_pos hne]
    exact List.cons_ne_nil _ _
  · obtain ⟨hmem, hd⟩ := List.mem_filter.1 hd
    exact isDigit_of_isRunChar (h.isRunChar d hmem) (bne_iff_ne.1 hd)

theorem IsPlain.isRun (h : IsPlain run) : IsRun run := by
  obtain ⟨hne, hdigit⟩ := h
  obtain ⟨c, rest, rfl⟩ := List.exists_cons_of_ne_nil hne
  obtain ⟨hc, hrest⟩ := List.forall_mem_cons.1 hdigit
  exact ⟨c, rest, rfl, hc, fun d hd => isRunChar_of_isDigit (hrest d hd)⟩

theorem IsPlain.plain_eq (h : IsPlain run) : plain run = run := by
  refine List.filter_eq_self.2 fun c hc => bne_iff_ne.2 ?_
  rintro rfl
  exact absurd (h.2 '_' hc) (by decide)

end Digits

namespace Decimal

open Digits (IsRun IsPlain isRunChar plain)

variable {p : Char → Bool} {s rest run text : List Char} {decimal : Decimal}

/-! ## Cutting -/

theorem cut_append {c : Char} (hs : ∀ d ∈ s, p d = false) (hc : p c = true) :
    cut p (s ++ c :: rest) = (s, some rest) := by
  have hs' : ∀ d ∈ s, (!p d) = true := fun d hd => by rw [hs d hd]; rfl
  have hhead : ∀ d, (c :: rest).head? = some d → (!p d) = false := by
    intro d hd
    obtain rfl := Option.some.inj hd
    rw [hc]
    rfl
  rw [cut, Text.takeWhile_append_of_head hs' hhead, Text.dropWhile_append_of_head hs' hhead]
  rfl

theorem cut_of_all (hs : ∀ d ∈ s, p d = false) : cut p s = (s, none) := by
  have hs' : ∀ d ∈ s, (!p d) = true := fun d hd => by rw [hs d hd]; rfl
  have htake : (s ++ []).takeWhile (fun d => !p d) = s :=
    Text.takeWhile_append_of_head hs' (by simp)
  have hdrop : (s ++ []).dropWhile (fun d => !p d) = [] :=
    Text.dropWhile_append_of_head hs' (by simp)
  rw [List.append_nil] at htake hdrop
  rw [cut, htake, hdrop]
  rfl

/-- A cut loses the codepoint that it is made at, and nothing where there is none. -/
theorem cut_cases (p : Char → Bool) (s : List Char) :
    cut p s = (s, none) ∨
      ∃ front c back, p c = true ∧ s = front ++ c :: back ∧ cut p s = (front, some back) := by
  have hsplit := List.takeWhile_append_dropWhile (p := fun d => !p d) (l := s)
  rw [cut]
  cases hdrop : s.dropWhile fun d => !p d with
  | nil =>
    rw [hdrop, List.append_nil] at hsplit
    exact .inl (by rw [hsplit]; rfl)
  | cons c back =>
    have hc : (!p c) = false := Text.head_dropWhile (s := s) (by rw [hdrop]; rfl)
    rw [Bool.not_eq_false'] at hc
    rw [hdrop] at hsplit
    exact .inr ⟨_, c, back, hc, hsplit.symm, rfl⟩

/-! ## What a text writes -/

/-- All three runs have digits alone. -/
structure IsPlain (decimal : Decimal) : Prop where
  integer : Digits.IsPlain decimal.integer
  fraction : ∀ run ∈ decimal.fraction, Digits.IsPlain run
  exponent : ∀ run ∈ decimal.exponent, Digits.IsPlain run

/-- The texts that write the digits of a decimal: its runs, in which underscores do not count, with
a point before the second and a marker of either case before the third. -/
inductive Writes : List Char → Decimal → Prop
  | intro {whole : List Char} {fraction exponent : Option (List Char)} {marker : Char}
      (hwhole : IsRun whole) (hfraction : ∀ run ∈ fraction, IsRun run)
      (hmarker : marker = 'e' ∨ marker = 'E') (hexponent : ∀ run ∈ exponent, IsRun run) :
    Writes (whole ++ introduced '.' fraction ++ introduced marker exponent)
      ⟨plain whole, fraction.map plain, exponent.map plain⟩

/-- A text writes digits, and no run without one. -/
theorem Writes.isPlain (h : Writes text decimal) : decimal.IsPlain := by
  obtain ⟨hwhole, hfraction, -, hexponent⟩ := h
  refine ⟨hwhole.isPlain_plain, fun run hrun => ?_, fun run hrun => ?_⟩
  · obtain ⟨found, hfound, rfl⟩ := Option.map_eq_some_iff.1 hrun
    exact (hfraction found hfound).isPlain_plain
  · obtain ⟨found, hfound, rfl⟩ := Option.map_eq_some_iff.1 hrun
    exact (hexponent found hfound).isPlain_plain

/-- The runs of a decimal that are digits alone are written by the numeral that is made of them. -/
theorem IsPlain.writes (h : decimal.IsPlain) : Writes decimal.text decimal := by
  have hsame : ∀ {run : Option (List Char)},
      (∀ s ∈ run, Digits.IsPlain s) → run.map plain = run := by
    rintro (_ | run) hrun
    · rfl
    · exact congrArg some (hrun run rfl).plain_eq
  have hwrites := Writes.intro h.integer.isRun (fun run hrun => (h.fraction run hrun).isRun)
    (.inl rfl) fun run hrun => (h.exponent run hrun).isRun
  rwa [h.integer.plain_eq, hsame h.fraction, hsame h.exponent] at hwrites

/-- The decimal literals are the texts that write something. -/
theorem isDecimal_iff : IsDecimal text ↔ ∃ decimal, Writes text decimal := by
  constructor
  · rintro ⟨mantissa, exponent, hmantissa, hexponent, rfl⟩
    obtain ⟨whole, fraction, hwhole, hfraction, rfl⟩ : ∃ whole fraction, IsRun whole ∧
        (∀ run ∈ fraction, IsRun run) ∧ mantissa = whole ++ introduced '.' fraction := by
      rcases hmantissa with hrun | ⟨whole, fraction, hwhole, hfraction, rfl⟩
      · exact ⟨mantissa, none, hrun, by simp, (List.append_nil _).symm⟩
      · exact ⟨whole, some fraction, hwhole, by simpa using hfraction, rfl⟩
    rcases hexponent with rfl | ⟨marker, run, rfl, hmarker, hrun⟩
    · exact ⟨_, @Writes.intro whole fraction none 'e' hwhole hfraction (.inl rfl) (by simp)⟩
    · exact ⟨_, @Writes.intro whole fraction (some run) marker hwhole hfraction hmarker
        (by simpa using hrun)⟩
  · rintro ⟨_, @⟨whole, fraction, exponent, marker, hwhole, hfraction, hmarker, hexponent⟩⟩
    refine ⟨_, _, ?_, ?_, rfl⟩
    · cases fraction with
      | none => exact .inl (by rwa [introduced, List.append_nil])
      | some fraction => exact .inr ⟨whole, fraction, hwhole, hfraction fraction rfl, rfl⟩
    · cases exponent with
      | none => exact .inl rfl
      | some exponent => exact .inr ⟨marker, exponent, rfl, hmarker, hexponent exponent rfl⟩

/-! ## Cutting a literal -/

/-- The runs that have digits are those of the language. -/
theorem digitsOf?_eq_some_iff {digits : List Char} :
    digitsOf? run = some digits ↔ IsRun run ∧ digits = plain run := by
  constructor
  · intro h
    rw [digitsOf?] at h
    split at h
    next hrun =>
      obtain ⟨hhead, hall⟩ := Bool.and_eq_true_iff.1 hrun
      cases run with
      | nil => exact absurd hhead (by decide)
      | cons c rest =>
        refine ⟨⟨c, rest, rfl, hhead, fun d hd => ?_⟩, (Option.some.inj h).symm⟩
        rw [isRunChar, Bool.or_eq_true, beq_iff_eq]
        -- what is neither a digit nor an underscore would not have been dropped
        by_cases hunder : d = '_'
        · exact .inr hunder
        · have hne : (d != '_') = true := bne_iff_ne.2 hunder
          have hplain := List.all_eq_true.1 hall d
          exact .inl (hplain (List.mem_filter.2 ⟨List.mem_cons_of_mem c hd, hne⟩))
    · exact absurd h (by simp)
  · rintro ⟨hrun, rfl⟩
    obtain ⟨c, rest, heq, hc, -⟩ := id hrun
    have hhead : run.head?.any Char.isDigit = true := by
      rw [heq]
      exact hc
    have hall : (plain run).all Char.isDigit = true := List.all_eq_true.2 hrun.isPlain_plain.2
    rw [plain] at hall
    rw [digitsOf?, hhead, hall]
    rfl

/-- A run that may be absent has digits, or is absent. -/
theorem optionalDigitsOf?_eq_some_iff {run digits : Option (List Char)} :
    optionalDigitsOf? run = some digits ↔ (∀ s ∈ run, IsRun s) ∧ digits = run.map plain := by
  cases run with
  | none => simp [optionalDigitsOf?, eq_comm]
  | some run =>
    simp only [optionalDigitsOf?, Option.map_eq_some_iff, digitsOf?_eq_some_iff,
      Option.mem_some_iff, forall_eq', Option.map_some]
    constructor
    · rintro ⟨_, ⟨hrun, rfl⟩, rfl⟩
      exact ⟨hrun, rfl⟩
    · rintro ⟨hrun, rfl⟩
      exact ⟨_, ⟨hrun, rfl⟩, rfl⟩

/-- A text with a codepoint that introduces what is behind it is cut there, where neither the
codepoint nor any other that the text may be cut at stands in front. -/
theorem cut_introduced {c : Char} {back : Option (List Char)} (hs : ∀ d ∈ s, p d = false)
    (hc : p c = true) : cut p (s ++ introduced c back) = (s, back) := by
  cases back with
  | none => rw [introduced, List.append_nil, cut_of_all hs]
  | some back => exact cut_append hs hc

/-- A cut leaves what it introduces, so the text can be put together again. -/
theorem exists_introduced_of_cut {front : List Char} {back : Option (List Char)} {c : Char}
    (hc : p c = true) (h : cut p s = (front, back)) :
    ∃ d, p d = true ∧ s = front ++ introduced d back := by
  rcases cut_cases p s with hcut | ⟨front', d, back', hd, hs, hcut⟩
  · obtain ⟨rfl, rfl⟩ := Prod.mk.inj (h.symm.trans hcut)
    exact ⟨c, hc, (List.append_nil _).symm⟩
  · obtain ⟨rfl, rfl⟩ := Prod.mk.inj (h.symm.trans hcut)
    exact ⟨d, hd, hs⟩

/-- No codepoint of a run is one that a literal is cut at. -/
theorem ne_of_mem_run (h : IsRun run) {c d : Char} (hc : c ∈ run) (hd : isRunChar d = false) :
    (c == d) = false := by
  refine beq_eq_false_iff_ne.2 ?_
  rintro rfl
  rw [h.isRunChar c hc] at hd
  cases hd

/-- **What a text is cut into is what it writes.** -/
theorem ofText?_eq_some_iff : ofText? text = some decimal ↔ Writes text decimal := by
  constructor
  · intro h
    rw [ofText?] at h
    rcases hcut : cut (fun c => c == 'e' || c == 'E') text with ⟨mantissa, exponent⟩
    rcases hcut' : cut (· == '.') mantissa with ⟨whole, fraction⟩
    obtain ⟨marker, hmarker, rfl⟩ := exists_introduced_of_cut (c := 'e') rfl hcut
    obtain ⟨point, hpoint, rfl⟩ := exists_introduced_of_cut (c := '.') rfl hcut'
    obtain rfl := beq_iff_eq.1 hpoint
    rw [Bool.or_eq_true, beq_iff_eq, beq_iff_eq] at hmarker
    simp only [hcut, hcut'] at h
    split at h
    next hwhole hfraction hexponent =>
      obtain ⟨hwholeRun, rfl⟩ := digitsOf?_eq_some_iff.1 hwhole
      obtain ⟨hfractionRun, rfl⟩ := optionalDigitsOf?_eq_some_iff.1 hfraction
      obtain ⟨hexponentRun, rfl⟩ := optionalDigitsOf?_eq_some_iff.1 hexponent
      obtain rfl := Option.some.inj h
      exact .intro hwholeRun hfractionRun hmarker hexponentRun
    · exact absurd h (by simp)
  · rintro @⟨whole, fraction, exponent, marker, hwhole, hfraction, hmarker, hexponent⟩
    -- neither a point nor a marker stands in a run, and no marker in a mantissa
    have hpoint : ∀ c ∈ whole, (c == '.') = false := fun c hc => ne_of_mem_run hwhole hc rfl
    have hletter : ∀ {run : List Char}, IsRun run → ∀ c ∈ run, (c == 'e' || c == 'E') = false :=
      fun hrun c hc => Bool.or_eq_false_iff.2 ⟨ne_of_mem_run hrun hc rfl, ne_of_mem_run hrun hc rfl⟩
    have hmantissa : ∀ c ∈ whole ++ introduced '.' fraction, (c == 'e' || c == 'E') = false := by
      refine List.forall_mem_append.2 ⟨hletter hwhole, ?_⟩
      cases fraction with
      | none => exact fun c hc => absurd hc List.not_mem_nil
      | some run => exact List.forall_mem_cons.2 ⟨rfl, hletter (hfraction run rfl)⟩
    have hcut : cut (fun c => c == 'e' || c == 'E')
        (whole ++ introduced '.' fraction ++ introduced marker exponent) =
          (whole ++ introduced '.' fraction, exponent) :=
      cut_introduced hmantissa (by rcases hmarker with rfl | rfl <;> rfl)
    simp only [ofText?, hcut, cut_introduced hpoint (c := '.') rfl,
      digitsOf?_eq_some_iff.2 ⟨hwhole, rfl⟩, optionalDigitsOf?_eq_some_iff.2 ⟨hfraction, rfl⟩,
      optionalDigitsOf?_eq_some_iff.2 ⟨hexponent, rfl⟩]

/-- **Every decimal literal is cut into runs of digits.** -/
theorem exists_ofText?_of_isDecimal (h : IsDecimal s) : ∃ decimal, ofText? s = some decimal :=
  (isDecimal_iff.1 h).imp fun _ => ofText?_eq_some_iff.2

end Decimal

end Lexis
