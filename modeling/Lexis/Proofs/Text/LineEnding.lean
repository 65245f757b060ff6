import Mathlib.Data.List.Infix
import Lexis.Workspace.Load

/-!
# Carriage returns before newlines

- `Text.dropReturns_eq_without`: a normalised text is the text without the codepoints at certain
  offsets, namely those of a carriage return with a newline right after it.
- `Text.dropReturns_append`: texts are normalised each by itself where no such pair is cut.
- `Text.dropReturns_of_not_infix`: a text without such a pair stays as it is.
- `Text.dropReturns_line`: a line loses the carriage return it ends with, and no other.
-/

namespace Lexis.Text

/-! ## Offsets left out -/

/-- The text without the codepoints at the offsets that satisfy `p`. -/
def without (p : Nat → Bool) (text : List Char) : List Char :=
  (text.zipIdx.filter fun (_, n) => !p n).map Prod.fst

/-- Whether a carriage return stands at the offset, and a newline right after it. -/
def isReturnAt (text : List Char) (n : Nat) : Bool :=
  text[n]? == some '\r' && text[n + 1]? == some '\n'

variable {c : Char} {s t rest line : List Char}

/-- Offsets behind the first codepoint are counted from there on. -/
theorem without_cons (p : Nat → Bool) (c : Char) (text : List Char) :
    without p (c :: text) =
      if p 0 then without (fun n => p (n + 1)) text
      else c :: without (fun n => p (n + 1)) text := by
  have hlater : ((text.zipIdx 1).filter fun (_, n) => !p n).map Prod.fst =
      without (fun n => p (n + 1)) text := by
    rw [List.zipIdx_succ, List.filter_map, List.map_map]
    rfl
  rw [without, List.zipIdx_cons, List.filter_cons]
  cases h : p 0
  · rw [if_pos (by simp [h]), if_neg (by decide), List.map_cons, hlater]
  · rw [if_neg (by simp [h]), if_pos rfl, hlater]

theorem isReturnAt_zero_iff :
    isReturnAt (c :: rest) 0 = true ↔ c = '\r' ∧ rest.head? = some '\n' := by
  cases rest <;> simp [isReturnAt]

/-- **A normalised text is the text without the carriage returns before newlines.** -/
theorem dropReturns_eq_without (text : List Char) :
    dropReturns text = without (isReturnAt text) text := by
  induction text with
  | nil => rfl
  | cons c rest ih =>
    have hlater : (fun n => isReturnAt (c :: rest) (n + 1)) = isReturnAt rest := rfl
    rw [dropReturns, without_cons, hlater, ← ih]
    exact if_congr isReturnAt_zero_iff.symm rfl rfl

/-! ## Texts put together -/

theorem dropReturns_cons_of_ne (hc : c ≠ '\r') (rest : List Char) :
    dropReturns (c :: rest) = c :: dropReturns rest := by
  rw [dropReturns, if_neg fun h => hc h.1]

/-- Texts are normalised each by itself unless a carriage return and a newline meet between them. -/
theorem dropReturns_append (h : s.getLast? = some '\r' → t.head? ≠ some '\n') :
    dropReturns (s ++ t) = dropReturns s ++ dropReturns t := by
  induction s with
  | nil => rfl
  | cons c s ih =>
    rw [List.cons_append, dropReturns, dropReturns]
    cases s with
    | nil =>
      -- the last codepoint of the first text has the second one behind it
      rw [List.nil_append, if_neg fun hpair => h (by rw [hpair.1]; rfl) hpair.2, if_neg (by simp)]
      rfl
    | cons d s =>
      rw [ih (by rwa [List.getLast?_cons_cons] at h)]
      show (if c = '\r' ∧ some d = some '\n' then _ else _) =
        (if c = '\r' ∧ some d = some '\n' then _ else _) ++ _
      split <;> rfl

/-- A text without a carriage return before a newline stays as it is. -/
theorem dropReturns_of_not_infix (h : ¬['\r', '\n'] <:+: s) : dropReturns s = s := by
  induction s with
  | nil => rfl
  | cons c rest ih =>
    rw [List.infix_cons_iff, not_or] at h
    have hpair : ¬(c = '\r' ∧ rest.head? = some '\n') := by
      rintro ⟨rfl, hhead⟩
      obtain ⟨rest, rfl⟩ := List.head?_eq_some_iff.1 hhead
      exact h.1 ⟨rest, rfl⟩
    rw [dropReturns, if_neg hpair, ih h.2]

theorem dropReturns_of_not_mem (h : '\n' ∉ s) : dropReturns s = s := by
  refine dropReturns_of_not_infix fun hpair => h (hpair.subset ?_)
  exact List.mem_cons_of_mem _ List.mem_cons_self

/-- Nothing is added, and nothing changes its place among what is left. -/
theorem dropReturns_sublist (text : List Char) : (dropReturns text).Sublist text := by
  induction text with
  | nil => exact .slnil
  | cons c rest ih =>
    rw [dropReturns]
    split
    · exact ih.cons c
    · exact ih.cons_cons c

/-! ## Newlines and lines -/

/-- No newline is lost. -/
theorem count_newline_dropReturns (text : List Char) :
    (dropReturns text).count '\n' = text.count '\n' := by
  induction text with
  | nil => rfl
  | cons c rest ih =>
    rw [dropReturns]
    split
    next h => rw [ih, h.1, List.count_cons_of_ne (by decide)]
    next => rw [List.count_cons, List.count_cons, ih]

/-- A text that ends with a newline still does. -/
theorem exists_dropReturns_concat (front : List Char) :
    ∃ front', dropReturns (front ++ ['\n']) = front' ++ ['\n'] := by
  induction front with
  | nil => exact ⟨[], rfl⟩
  | cons c front ih =>
    obtain ⟨front', hfront⟩ := ih
    rw [List.cons_append, dropReturns, hfront]
    split
    · exact ⟨front', rfl⟩
    · exact ⟨c :: front', rfl⟩

/-- A line without the carriage return that it ends with, if it ends with one. -/
def dropReturn (line : List Char) : List Char :=
  if line.getLast? = some '\r' then line.dropLast else line

theorem dropReturn_concat (own : List Char) : dropReturn (own ++ ['\r']) = own := by
  rw [dropReturn, if_pos List.getLast?_concat, List.dropLast_concat]

theorem dropReturn_of_ne (h : line.getLast? ≠ some '\r') : dropReturn line = line := if_neg h

theorem dropReturn_sublist (line : List Char) : (dropReturn line).Sublist line := by
  rw [dropReturn]
  split
  · exact List.dropLast_sublist line
  · exact List.Sublist.refl line

/-- **A line before a newline loses the one carriage return that it ends with.** -/
theorem dropReturns_line (hline : '\n' ∉ line) (rest : List Char) :
    dropReturns (line ++ '\n' :: rest) = dropReturn line ++ '\n' :: dropReturns rest := by
  by_cases hend : line.getLast? = some '\r'
  · obtain ⟨own, rfl⟩ := List.getLast?_eq_some_iff.1 hend
    have hown : '\n' ∉ own := fun hmem => hline (List.mem_append_left _ hmem)
    have hjunction : own.getLast? = some '\r' → ('\r' :: '\n' :: rest).head? ≠ some '\n' := by
      intro _ h
      exact absurd (Option.some.inj h) (by decide)
    rw [List.append_assoc, List.singleton_append, dropReturns_append hjunction,
      dropReturns_of_not_mem hown, dropReturn_concat, dropReturns, if_pos ⟨rfl, rfl⟩,
      dropReturns_cons_of_ne (by decide)]
  · rw [dropReturns_append fun h => absurd h hend, dropReturns_of_not_mem hline,
      dropReturns_cons_of_ne (by decide), dropReturn_of_ne hend]

end Lexis.Text
