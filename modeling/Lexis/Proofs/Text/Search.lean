import Mathlib.Data.List.Infix
import Lexis.Source.Cursor

/-!
# What searching finds

- `Text.IsLongest language text s`: the longest beginning of `s` that is in a language.
- `Text.EndsFirst mark text`: `text` ends with `mark`, which does not occur in it before.
- `Text.throughFirst?_eq_some_iff`, `Text.throughFirst?_eq_none_iff`: a search reads up to the first
  occurrence of the mark, and fails where there is none.
- `Text.throughNewline_append`, `Text.throughNewline_of_not_mem`: reading a line stops after the
  first newline, or at the end of the text.
-/

namespace Lexis.Text

/-! ## Runs of codepoints -/

/-- A run that ends before a codepoint outside its class is all that is taken of the class. -/
theorem takeWhile_append_of_head {p : Char → Bool} {run rest : List Char}
    (hrun : ∀ c ∈ run, p c = true) (hrest : ∀ c, rest.head? = some c → p c = false) :
    (run ++ rest).takeWhile p = run := by
  rw [List.takeWhile_append_of_pos hrun]
  cases rest with
  | nil => exact List.append_nil run
  | cons c rest => rw [List.takeWhile_cons, if_neg (by rw [hrest c rfl]; decide), List.append_nil]

theorem dropWhile_append_of_head {p : Char → Bool} {run rest : List Char}
    (hrun : ∀ c ∈ run, p c = true) (hrest : ∀ c, rest.head? = some c → p c = false) :
    (run ++ rest).dropWhile p = rest := by
  rw [List.dropWhile_append_of_pos hrun]
  cases rest with
  | nil => rfl
  | cons c rest => rw [List.dropWhile_cons, if_neg (by rw [hrest c rfl]; decide)]

theorem of_mem_takeWhile {p : Char → Bool} {s : List Char} {c : Char} (h : c ∈ s.takeWhile p) :
    p c = true :=
  List.all_eq_true.1 List.all_takeWhile c h

/-- What is left after a run begins outside its class. -/
theorem head_dropWhile {p : Char → Bool} {s : List Char} {c : Char}
    (h : (s.dropWhile p).head? = some c) : p c = false := by
  induction s with
  | nil => exact absurd h (by simp)
  | cons d s ih =>
    rw [List.dropWhile_cons] at h
    split at h
    · exact ih h
    next hd =>
      obtain rfl : d = c := by simpa using h
      exact Bool.eq_false_iff.2 hd

/-- Every run of a class that a text begins with is part of the longest one. -/
theorem isPrefix_takeWhile {p : Char → Bool} {run s : List Char} (hrun : ∀ c ∈ run, p c = true)
    (h : run <+: s) : run <+: s.takeWhile p := by
  obtain ⟨rest, rfl⟩ := h
  rw [List.takeWhile_append_of_pos hrun]
  exact List.prefix_append _ _

/-! ## Longest beginnings -/

/-- The longest beginning of `s` that a language has. -/
structure IsLongest (language : List Char → Prop) (text s : List Char) : Prop where
  mem : language text
  isPrefix : text <+: s
  length_le : ∀ other, language other → other <+: s → other.length ≤ text.length

/-- There is one longest beginning. -/
theorem IsLongest.eq {language : List Char → Prop} {text other s : List Char}
    (h : IsLongest language text s) (h' : IsLongest language other s) : text = other := by
  have hlen : text.length = other.length :=
    Nat.le_antisymm (h'.length_le text h.mem h.isPrefix) (h.length_le other h'.mem h'.isPrefix)
  exact (List.prefix_of_prefix_length_le h.isPrefix h'.isPrefix (Nat.le_of_eq hlen)).eq_of_length
    hlen

/-- What every beginning in the language is a beginning of is the longest. -/
theorem isLongest_of_isPrefix {language : List Char → Prop} {text s : List Char}
    (hmem : language text) (hpre : text <+: s)
    (h : ∀ other, language other → other <+: s → other <+: text) : IsLongest language text s :=
  ⟨hmem, hpre, fun other hother hs => (h other hother hs).length_le⟩

/-! ## Marks -/

/-- A text that ends with a mark, at the mark's first occurrence. -/
def EndsFirst (mark text : List Char) : Prop := mark <:+ text ∧ ¬mark <:+: text.dropLast

theorem throughFirst?_eq_none_iff {mark : List Char} (hmark : mark ≠ []) {s : List Char} :
    throughFirst? mark s = none ↔ ¬mark <:+: s := by
  induction s with
  | nil =>
    rw [throughFirst?, List.infix_nil]
    exact ⟨fun _ => hmark, fun _ => rfl⟩
  | cons c s ih =>
    rw [throughFirst?, List.infix_cons_iff, not_or, ← ih, ← List.isPrefixOf_iff_prefix]
    split
    next hfits => exact ⟨fun h => absurd h (by simp), fun h => absurd hfits h.1⟩
    next hfits => rw [Option.map_eq_none_iff]; exact ⟨fun h => ⟨hfits, h⟩, fun h => h.2⟩

/-- A mark at the head of a text ends there for the first time. -/
theorem endsFirst_iff_of_isPrefix {mark s text : List Char} (hmark : mark ≠ [])
    (hfits : mark <+: s) : text <+: s ∧ EndsFirst mark text ↔ mark = text := by
  constructor
  · rintro ⟨htext, hends, hfirst⟩
    have hle := hends.length_le
    have hpre : mark <+: text := List.prefix_of_prefix_length_le hfits htext hle
    refine hpre.eq_of_length (Nat.le_antisymm hle (Nat.le_of_not_lt fun hlt => ?_))
    -- a mark that is shorter than the text would occur before the text's last codepoint
    refine hfirst (List.IsPrefix.isInfix ?_)
    rw [List.dropLast_eq_take]
    exact List.prefix_take_iff.2 ⟨hpre, by omega⟩
  · rintro rfl
    refine ⟨hfits, List.suffix_rfl, fun h => ?_⟩
    have hle := h.length_le
    have hpos := List.length_pos_iff.2 hmark
    rw [List.length_dropLast] at hle
    omega

/-- **A search reads up to the first occurrence of its mark.** -/
theorem throughFirst?_eq_some_iff {mark : List Char} (hmark : mark ≠ []) {s text : List Char} :
    throughFirst? mark s = some text ↔ text <+: s ∧ EndsFirst mark text := by
  induction s generalizing text with
  | nil =>
    rw [throughFirst?, List.prefix_nil]
    refine ⟨fun h => absurd h (by simp), ?_⟩
    rintro ⟨rfl, hends, -⟩
    exact absurd (List.suffix_nil.1 hends) hmark
  | cons c s ih =>
    rw [throughFirst?]
    split
    next hfits =>
      -- the mark stands right here, and so it is all that is read
      rw [endsFirst_iff_of_isPrefix hmark (List.isPrefixOf_iff_prefix.1 hfits), Option.some.injEq]
    next hfits =>
      -- the mark stands further on: none begins with `c`, so the first after it is the first at all
      rw [List.isPrefixOf_iff_prefix] at hfits
      rw [Option.map_eq_some_iff]
      constructor
      · rintro ⟨inner, hinner, rfl⟩
        obtain ⟨hpre, hends, hfirst⟩ := ih.1 hinner
        have hne : inner ≠ [] := fun h => hmark (List.suffix_nil.1 (h ▸ hends))
        refine ⟨(List.prefix_cons_inj c).2 hpre, hends.trans (List.suffix_cons c inner), ?_⟩
        rw [List.dropLast_cons_of_ne_nil hne, List.infix_cons_iff, not_or]
        refine ⟨fun h => hfits (h.trans ?_), hfirst⟩
        exact (List.prefix_cons_inj c).2 ((List.dropLast_prefix inner).trans hpre)
      · rintro ⟨hpre, hends, hfirst⟩
        cases text with
        | nil => exact absurd (List.suffix_nil.1 hends) hmark
        | cons d inner =>
          obtain rfl : d = c := (List.cons_prefix_cons.1 hpre).1
          have hinner : mark <:+ inner := by
            rcases List.suffix_cons_iff.1 hends with rfl | h
            · exact absurd hpre hfits
            · exact h
          have hne : inner ≠ [] := fun h => hmark (List.suffix_nil.1 (h ▸ hinner))
          rw [List.dropLast_cons_of_ne_nil hne, List.infix_cons_iff, not_or] at hfirst
          exact ⟨inner, ih.2 ⟨(List.prefix_cons_inj d).1 hpre, hinner, hfirst.2⟩, rfl⟩

/-- A search for one codepoint fails where the text does not have it. -/
theorem throughFirst?_singleton_eq_none_iff {c : Char} {s : List Char} :
    throughFirst? [c] s = none ↔ c ∉ s := by
  rw [throughFirst?_eq_none_iff (List.cons_ne_nil c []), List.singleton_infix_iff]

/-- A search for one codepoint reads up to where the text has it first. -/
theorem throughFirst?_singleton_append {c : Char} {body : List Char} (hbody : c ∉ body)
    (rest : List Char) : throughFirst? [c] (body ++ c :: rest) = some (body ++ [c]) := by
  refine (throughFirst?_eq_some_iff (List.cons_ne_nil c [])).2 ⟨⟨rest, by simp⟩, ?_, ?_⟩
  · exact List.suffix_append body [c]
  · rwa [List.dropLast_concat, List.singleton_infix_iff]

/-! ## Lines -/

/-- The codepoints of a line and its newline, whatever follows. -/
theorem throughNewline_append {body : List Char} (hbody : '\n' ∉ body) (rest : List Char) :
    throughNewline (body ++ '\n' :: rest) = body ++ ['\n'] := by
  induction body with
  | nil => rfl
  | cons c body ih =>
    obtain ⟨hc, hbody⟩ := not_or.1 (mt List.mem_cons.2 hbody)
    rw [List.cons_append, throughNewline, if_neg (Ne.symm hc), ih hbody]
    rfl

/-- A last line without a newline is read to its end. -/
theorem throughNewline_of_not_mem {body : List Char} (hbody : '\n' ∉ body) :
    throughNewline body = body := by
  induction body with
  | nil => rfl
  | cons c body ih =>
    obtain ⟨hc, hbody⟩ := not_or.1 (mt List.mem_cons.2 hbody)
    rw [throughNewline, if_neg (Ne.symm hc), ih hbody]

/-- A text is a line with its newline and what follows, or one line without a newline. -/
theorem exists_line (s : List Char) :
    ∃ body, '\n' ∉ body ∧ (s = body ∨ ∃ rest, s = body ++ '\n' :: rest) := by
  induction s with
  | nil => exact ⟨[], List.not_mem_nil, .inl rfl⟩
  | cons c s ih =>
    by_cases hc : c = '\n'
    · exact ⟨[], List.not_mem_nil, .inr ⟨s, by rw [hc]; rfl⟩⟩
    · obtain ⟨body, hbody, hs⟩ := ih
      refine ⟨c :: body, fun h => ?_, ?_⟩
      · rcases List.mem_cons.1 h with h | h
        · exact hc h.symm
        · exact hbody h
      · rcases hs with rfl | ⟨rest, rfl⟩
        · exact .inl rfl
        · exact .inr ⟨rest, rfl⟩

end Lexis.Text
