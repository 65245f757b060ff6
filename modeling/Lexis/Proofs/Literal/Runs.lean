import Lexis.Literal.Basic
import Lexis.Proofs.Literal.Decimal
import Lexis.Proofs.Scan.Layout

/-!
# The runs of scanned decimals

Whether a text is a decimal is settled twice. A scan reads its runs one after the other, and goes
back where a point has no digit behind it. When the value is asked for, the text is cut at a marker
and at a point, and what is left is tested. Both accept the same texts.

- `Literal.decimal_eq_ok_iff`: the runs of a literal are those that its text writes.
- `Decimal.respelled`: a text without underscores and with a small marker.
- `Decimal.Writes.text_eq`: put together, the runs that a text writes are the text respelled.
- `decimal_runs_of_scanned`: the texts that have runs are the decimals that scan.
- `digits_beyond_reach`: digits that are too many to scan.
-/

namespace Lexis

open Digits (IsRun plain isRunChar)

variable {text run : List Char} {decimal : Decimal}

namespace Decimal

/-- A text without its underscores, and with a small letter for each capital marker. -/
def respelled (text : List Char) : List Char :=
  (text.filter (· != '_')).map fun c => if c = 'E' then 'e' else c

theorem respelled_append (text more : List Char) :
    respelled (text ++ more) = respelled text ++ respelled more := by
  rw [respelled, List.filter_append, List.map_append]
  rfl

/-- No run has a marker in it. -/
theorem respelled_of_isRun (h : IsRun run) : respelled run = plain run := by
  have hsame : ∀ c ∈ plain run, (if c = 'E' then 'e' else c) = id c := by
    intro c hc
    have hdigit := h.isPlain_plain.2 c hc
    refine if_neg ?_
    rintro rfl
    exact absurd hdigit (by decide)
  exact (List.map_congr_left hsame).trans (List.map_id _)

theorem respelled_introduced {c d : Char} {back : Option (List Char)} (hc : respelled [c] = [d])
    (hback : ∀ run ∈ back, IsRun run) :
    respelled (introduced c back) = introduced d (back.map plain) := by
  cases back with
  | none => rfl
  | some run =>
    rw [introduced, ← List.singleton_append, respelled_append, hc,
      respelled_of_isRun (hback run rfl)]
    rfl

/-- **Put together, the runs that a text writes are the text respelled.** -/
theorem Writes.text_eq (h : Writes text decimal) : decimal.text = respelled text := by
  obtain @⟨whole, fraction, exponent, marker, hwhole, hfraction, hmarker, hexponent⟩ := h
  have hletter : respelled [marker] = ['e'] := by rcases hmarker with rfl | rfl <;> rfl
  rw [respelled_append, respelled_append, respelled_of_isRun hwhole,
    respelled_introduced rfl hfraction, respelled_introduced hletter hexponent]
  rfl

end Decimal

namespace Literal

open Decimal (Writes)

/-- **The runs of a literal are those that its text writes.** -/
theorem decimal_eq_ok_iff : Literal.decimal text = .ok decimal ↔ Writes text decimal := by
  rw [Literal.decimal, ← Decimal.ofText?_eq_some_iff]
  cases Decimal.ofText? text <;> simp

theorem decimal_eq_error (h : ∀ decimal, ¬Writes text decimal) :
    Literal.decimal text = .error (.malformed .decimal text) := by
  have hnone : Decimal.ofText? text = none :=
    Option.eq_none_iff_forall_ne_some.2 fun decimal hof =>
      h decimal (Decimal.ofText?_eq_some_iff.1 hof)
  rw [Literal.decimal, hnone]

end Literal

/-- The decimals are the texts that write something and are within reach. -/
theorem isTokenOf_decimal_iff : IsTokenOf .decimal text ↔
    text.length ≤ SourceText.maxLength ∧ ∃ decimal, Decimal.Writes text decimal := by
  rw [isTokenOf_iff, ← Decimal.isDecimal_iff]
  exact And.comm

/-- **A text has runs of digits where it scans as a decimal**, and only there, as long as it is
within reach; any other is reported as malformed. The runs are digits and nothing else, and put
together with a point and a marker they are the text, but for its underscores and a capital marker.
And whatever three runs of digits, of which the last two may be absent: put together, they have just
these runs, and scan as a decimal where they are within reach. -/
theorem decimal_runs_of_scanned :
    (∀ text, IsTokenOf .decimal text ↔
      text.length ≤ SourceText.maxLength ∧ ∃ decimal, Literal.decimal text = .ok decimal) ∧
    (∀ text, text.length ≤ SourceText.maxLength → ¬IsTokenOf .decimal text →
      Literal.decimal text = .error (.malformed .decimal text)) ∧
    (∀ text decimal, Literal.decimal text = .ok decimal →
      decimal.IsPlain ∧ decimal.text = Decimal.respelled text) ∧
    ∀ decimal : Decimal, decimal.IsPlain →
      Literal.decimal decimal.text = .ok decimal ∧
      (decimal.text.length ≤ SourceText.maxLength → IsTokenOf .decimal decimal.text) := by
  refine ⟨fun text => ?_, fun text hlength htext => ?_, fun text decimal h => ?_,
    fun decimal h => ?_⟩
  · rw [isTokenOf_decimal_iff]
    exact and_congr_right' (exists_congr fun decimal => Literal.decimal_eq_ok_iff.symm)
  · refine Literal.decimal_eq_error fun decimal hwrites => htext ?_
    exact isTokenOf_decimal_iff.2 ⟨hlength, decimal, hwrites⟩
  · have hwrites := Literal.decimal_eq_ok_iff.1 h
    exact ⟨hwrites.isPlain, hwrites.text_eq⟩
  · refine ⟨Literal.decimal_eq_ok_iff.2 h.writes, fun hlength => ?_⟩
    exact isTokenOf_decimal_iff.2 ⟨hlength, decimal, h.writes⟩

/-- Underscores at the end of every run and a capital marker; a point with an underscore behind it,
which is no decimal; and runs of one digit each. -/
theorem decimal_runs_of_scanned_underscores :
    Decimal.text ⟨['1', '0'], some ['5'], some ['2']⟩ =
      Decimal.respelled ['1', '_', '0', '_', '.', '5', '_', 'E', '2', '_'] ∧
    Literal.decimal ['1', '.', '_', '5'] =
      .error (.malformed .decimal ['1', '.', '_', '5']) ∧
    IsTokenOf .decimal ['0', '.', '0', 'e', '9'] := by
  refine ⟨?_, ?_, ?_⟩
  · exact (decimal_runs_of_scanned.2.2.1 _ _ (by decide)).2
  · refine decimal_runs_of_scanned.2.1 _ (by decide) ?_
    rintro ⟨lexeme, hscan, -⟩
    have hlexemes : (SourceText.mk ['1', '.', '_', '5']).scan.lexemes.length = 4 := by
      decide +kernel
    rw [hscan] at hlexemes
    exact absurd hlexemes (by simp)
  · refine (decimal_runs_of_scanned.2.2.2 ⟨['0'], some ['0'], some ['9']⟩ ⟨?_, ?_, ?_⟩).2
      (by decide)
    · exact ⟨by simp, List.forall_mem_singleton.2 rfl⟩
    · exact fun run hrun => by cases hrun; exact ⟨by simp, List.forall_mem_singleton.2 rfl⟩
    · exact fun run hrun => by cases hrun; exact ⟨by simp, List.forall_mem_singleton.2 rfl⟩

/-! ## Digits out of reach -/

theorem isPlain_ones (n : Nat) : Decimal.IsPlain ⟨List.replicate (n + 1) '1', none, none⟩ := by
  refine ⟨⟨List.cons_ne_nil _ _, fun c hc => ?_⟩, ?_, ?_⟩
  · rw [List.eq_of_mem_replicate hc]
    rfl
  · exact fun run hrun => absurd hrun (Option.not_mem_none run)
  · exact fun run hrun => absurd hrun (Option.not_mem_none run)

/-- One digit more than a word counts: the text has its runs, and it does not scan as a decimal. -/
theorem digits_beyond_reach :
    Literal.decimal (List.replicate (4294967295 + 1) '1') =
        .ok ⟨List.replicate (4294967295 + 1) '1', none, none⟩ ∧
      ¬IsTokenOf .decimal (List.replicate (4294967295 + 1) '1') := by
  have hwrites := (isPlain_ones 4294967295).writes
  have htext (run : List Char) : Decimal.text ⟨run, none, none⟩ = run := by
    simp [Decimal.text, Decimal.introduced]
  rw [htext] at hwrites
  refine ⟨Literal.decimal_eq_ok_iff.2 hwrites, fun htoken => ?_⟩
  have hlength := (isTokenOf_decimal_iff.1 htoken).1
  rw [List.length_replicate] at hlength
  exact absurd hlength (by decide)

end Lexis
