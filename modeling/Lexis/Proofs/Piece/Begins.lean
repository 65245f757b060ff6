import Lexis.Piece.Basic
import Lexis.Proofs.Text.Codepoint

/-!
# What the piece ahead can be

The rules for reading a piece are tried in order. This module says once what each rule asks for and
what it yields, so that whatever is proved of pieces goes by one case for each rule.

- `Mark.Opens`: the codepoints that some mark begins with. No space, letter or digit does.
- `Mark.atHead?_eq_some`: the mark at the head of a text is the longest that fits.
- `Piece.Begins`: a text begins with a piece, one constructor for each rule.
- `Piece.read?_eq_some_iff`: reading finds exactly the piece that a text begins with.
- `Piece.read?_behind`: where what is stored behind the text matters.
-/

namespace Lexis

namespace Mark

/-! ## First codepoints of marks -/

theorem mem_longestFirst (mark : Mark) : mark ∈ longestFirst := by
  cases mark <;> decide

/-- The codepoint is the first of some mark. -/
def Opens (c : Char) : Prop := ∃ mark : Mark, mark.text.head? = some c

instance (c : Char) : Decidable (Opens c) :=
  decidable_of_iff (∃ mark ∈ longestFirst, mark.text.head? = some c)
    ⟨fun ⟨mark, _, h⟩ => ⟨mark, h⟩, fun ⟨mark, h⟩ => ⟨mark, mem_longestFirst mark, h⟩⟩

/-- The marks that open a literal. The others are tokens by themselves. -/
def IsQuote (mark : Mark) : Prop := mark = prime ∨ mark = quote ∨ mark = backtick

theorem not_opens_of_isAlpha {c : Char} (hc : c.isAlpha = true) : ¬Opens c := by
  rintro ⟨mark, hmark⟩
  cases mark <;> cases hmark <;> exact absurd hc (by decide)

theorem not_opens_of_isDigit {c : Char} (hc : c.isDigit = true) : ¬Opens c := by
  rintro ⟨mark, hmark⟩
  cases mark <;> cases hmark <;> exact absurd hc (by decide)

/-- A mark begins with a delimiter exactly if it opens a literal. -/
theorem isDelimiter_head_iff {mark : Mark} {c : Char} (h : mark.text.head? = some c) :
    isDelimiter c = true ↔ mark.IsQuote := by
  cases mark <;> cases h <;> simp [isDelimiter, IsQuote]

/-- The first codepoint of a mark is a mark by itself, so the table has a mark for every text that
begins with one. -/
theorem exists_text_eq_singleton {c : Char} (h : Opens c) :
    ∃ mark : Mark, mark.text = [c] := by
  obtain ⟨mark, hmark⟩ := h
  have hall : ∀ mark ∈ longestFirst, ∃ single ∈ longestFirst,
      single.text = mark.text.head?.toList := by
    decide
  obtain ⟨single, -, hsingle⟩ := hall mark (mem_longestFirst mark)
  rw [hmark] at hsingle
  exact ⟨single, hsingle⟩

/-! ## The mark at the head of a text -/

/-- A mark that fits at the head of a text begins with the text's first codepoint. -/
theorem head?_eq_of_isPrefix {mark : Mark} {c : Char} {rest : List Char}
    (h : mark.text <+: c :: rest) : mark.text.head? = some c := by
  obtain ⟨after, hafter⟩ := h
  cases htext : mark.text with
  | nil => exact absurd mark.text_length_pos (by rw [htext]; decide)
  | cons d text =>
    rw [htext] at hafter
    exact congrArg some (List.cons.inj hafter).1

/-- A text has no mark at its head where its first codepoint begins none. -/
theorem atHead?_of_not_opens {c : Char} (hc : ¬Opens c) (rest : List Char) :
    atHead? (c :: rest) = none := by
  rw [atHead?]
  split
  · rfl
  · refine List.find?_eq_none.2 fun mark _ hmark => hc ⟨mark, ?_⟩
    exact head?_eq_of_isPrefix (List.isPrefixOf_iff_prefix.1 hmark)

/-- A text that begins neither with a delimiter nor with a mark has no mark at its head, and only
such a text. -/
theorem not_opens_of_atHead? {c : Char} {rest : List Char} (hc : isDelimiter c = false)
    (h : atHead? (c :: rest) = none) : ¬Opens c := by
  intro hopens
  obtain ⟨mark, hmark⟩ := exists_text_eq_singleton hopens
  rw [atHead?, if_neg (by rw [hc]; decide)] at h
  refine List.find?_eq_none.1 h mark (mem_longestFirst mark) ?_
  rw [hmark, List.isPrefixOf_iff_prefix]
  exact ⟨rest, rfl⟩

/-- **The mark at the head of a text is the longest that fits**, by the order of the table. -/
theorem atHead?_eq_some {s : List Char} {mark : Mark} (h : atHead? s = some mark) :
    mark.text <+: s ∧ ¬mark.IsQuote ∧
      ∀ other : Mark, other.text <+: s → other.text.length ≤ mark.text.length := by
  cases s with
  | nil => exact absurd h (by simp [atHead?])
  | cons c rest =>
    rw [atHead?] at h
    split at h
    · exact absurd h (by simp)
    next hc =>
      obtain ⟨hfits, before, after, hsplit, hbefore⟩ := List.find?_eq_some_iff_append.1 h
      have hpre : mark.text <+: c :: rest := List.isPrefixOf_iff_prefix.1 hfits
      refine ⟨hpre, ?_, ?_⟩
      · intro hquote
        exact hc ((isDelimiter_head_iff (head?_eq_of_isPrefix hpre)).2 hquote)
      · -- the table is sorted: whatever is longer comes before, and nothing before it fits
        intro other hother
        have hsorted : longestFirst.Pairwise fun a b => b.text.length ≤ a.text.length := by decide
        have hmem := mem_longestFirst other
        rw [hsplit] at hmem hsorted
        rcases List.mem_append.1 hmem with hmem | hmem
        · have := hbefore other hmem
          rw [List.isPrefixOf_iff_prefix.2 hother] at this
          exact absurd this (by decide)
        · rcases List.mem_cons.1 hmem with rfl | hmem
          · exact Nat.le_refl _
          · exact (List.pairwise_cons.1 (List.pairwise_append.1 hsorted).2.1).1 other hmem

end Mark

namespace Piece

/-! ## The rules, one by one -/

/-- A text begins with a piece: one constructor for each rule of reading. -/
inductive Begins : List Char → Piece → Prop
  | space (rest : List Char) : Begins (' ' :: rest) (gap [' '])
  | comment (rest : List Char) : Begins ('#' :: rest) (comment rest)
  | mark {s : List Char} {mark : Mark} (h : Mark.atHead? s = some mark) :
    Begins s (token (.mark mark) mark.text)
  | character (rest : List Char) : Begins ('\'' :: rest) (character rest)
  | string (rest : List Char) : Begins ('"' :: rest) (string rest)
  | rawString (rest : List Char) : Begins ('\x60' :: rest) (rawString rest)
  | decimal {c : Char} (hc : c.isDigit = true) (rest : List Char) :
    Begins (c :: rest) (decimal (c :: rest))
  | word {c : Char} (hc : c.isAlpha = true) (rest : List Char) :
    Begins (c :: rest) (word (c :: rest))
  | unknown {c : Char} (hspace : c ≠ ' ') (hsign : c ≠ '#') (hmark : ¬Mark.Opens c)
    (hdigit : c.isDigit = false) (halpha : c.isAlpha = false) (rest : List Char) :
    Begins (c :: rest) (token .unknown [c])

theorem begins_of_read? {s : List Char} {piece : Piece} (h : read? s = some piece) :
    Begins s piece := by
  cases s with
  | nil => exact absurd h (by simp [read?])
  | cons c rest =>
    rw [read?, Option.some.injEq] at h
    subst h
    -- each rule is tried where all the rules before it do not apply
    split
    next hspace => exact hspace ▸ .space rest
    next hspace =>
    split
    next hsign => exact hsign ▸ .comment rest
    next hsign =>
    split
    next mark hmark => exact .mark hmark
    next hmark =>
    split
    next hprime => exact hprime ▸ .character rest
    next hprime =>
    split
    next hquote => exact hquote ▸ .string rest
    next hquote =>
    split
    next hback => exact hback ▸ .rawString rest
    next hback =>
    split
    next hdigit => exact .decimal hdigit rest
    next hdigit =>
    split
    next halpha => exact .word halpha rest
    next halpha =>
    have hdelim : Mark.isDelimiter c = false := by simp [Mark.isDelimiter, hprime, hquote, hback]
    exact .unknown hspace hsign (Mark.not_opens_of_atHead? hdelim hmark)
      (Bool.eq_false_iff.2 hdigit) (Bool.eq_false_iff.2 halpha) rest

/-- Where neither a gap nor a mark nor a quoted literal begins, only three rules are left. -/
theorem read?_of_not_opens {c : Char} (hspace : c ≠ ' ') (hsign : c ≠ '#')
    (hmark : ¬Mark.Opens c) (rest : List Char) :
    read? (c :: rest) = some
      (if c.isDigit then decimal (c :: rest)
      else if c.isAlpha then word (c :: rest)
      else token .unknown [c]) := by
  have hne : ∀ d : Char, Mark.Opens d → c ≠ d := by
    rintro d hd rfl
    exact hmark hd
  rw [read?, if_neg hspace, if_neg hsign, Mark.atHead?_of_not_opens hmark]
  dsimp only
  rw [if_neg (hne '\'' (by decide)), if_neg (hne '"' (by decide)),
    if_neg (hne '\x60' (by decide))]

theorem read?_of_begins {s : List Char} {piece : Piece} (h : Begins s piece) :
    read? s = some piece := by
  cases h with
  | space rest => rfl
  | comment rest => rfl
  | @mark s mark h =>
    cases s with
    | nil => exact absurd h (by simp [Mark.atHead?])
    | cons c rest =>
      -- neither a space nor a number sign begins a mark
      have hopens : Mark.Opens c := ⟨mark, Mark.head?_eq_of_isPrefix (Mark.atHead?_eq_some h).1⟩
      have hspace : c ≠ ' ' := fun hc => absurd (hc ▸ hopens) (by decide)
      have hsign : c ≠ '#' := fun hc => absurd (hc ▸ hopens) (by decide)
      rw [read?, if_neg hspace, if_neg hsign, h]
  | character rest => rfl
  | string rest => rfl
  | rawString rest => rfl
  | @decimal c hc rest =>
    have hspace : c ≠ ' ' := Text.ne_of_class hc (by decide)
    have hsign : c ≠ '#' := Text.ne_of_class hc (by decide)
    rw [read?_of_not_opens hspace hsign (Mark.not_opens_of_isDigit hc), if_pos hc]
  | @word c hc rest =>
    have hspace : c ≠ ' ' := Text.ne_of_class hc (by decide)
    have hsign : c ≠ '#' := Text.ne_of_class hc (by decide)
    have hdigit : ¬c.isDigit = true := Bool.eq_false_iff.1 (Text.not_isDigit_of_isAlpha hc)
    rw [read?_of_not_opens hspace hsign (Mark.not_opens_of_isAlpha hc), if_neg hdigit, if_pos hc]
  | unknown hspace hsign hmark hdigit halpha rest =>
    rw [read?_of_not_opens hspace hsign hmark, if_neg (Bool.eq_false_iff.1 hdigit),
      if_neg (Bool.eq_false_iff.1 halpha)]

/-- **Reading finds exactly the piece that a text begins with.** -/
theorem read?_eq_some_iff {s : List Char} {piece : Piece} :
    read? s = some piece ↔ Begins s piece :=
  ⟨begins_of_read?, read?_of_begins⟩

/-- Every text but the empty one begins with a piece. -/
theorem read?_eq_none_iff {s : List Char} : read? s = none ↔ s = [] := by
  cases s with
  | nil => exact ⟨fun _ => rfl, fun _ => rfl⟩
  | cons c rest => simp [read?]

/-! ## What is stored behind the text -/

/-- With a codepoint of the text after its opening prime, a character literal is read no further
than the text. -/
theorem character_behind {rest : List Char} {behind : Char} (h : rest ≠ [] ∨ behind ≠ '\'') :
    character rest behind = character rest := by
  cases rest with
  | nil =>
    have hbehind : behind ≠ '\'' := h.resolve_left (absurd rfl)
    rw [character, character, List.headD_nil, List.headD_nil, if_neg hbehind, if_neg (by decide)]
  | cons c rest => rfl

/-- **What is stored behind a text changes what is read in one place only**: before a prime that is
all there is of the text, and only by being a prime too. -/
theorem read?_behind {s : List Char} {behind : Char} (h : ¬(s = ['\''] ∧ behind = '\'')) :
    read? s behind = read? s := by
  cases s with
  | nil => rfl
  | cons c rest =>
    by_cases hc : c = '\''
    · subst hc
      have hrest : rest ≠ [] ∨ behind ≠ '\'' := by
        refine Classical.not_and_iff_not_or_not.1 fun hcut => h ⟨?_, hcut.2⟩
        rw [hcut.1]
      exact congrArg some (character_behind hrest)
    · rw [read?, read?]
      simp only [if_neg hc]

/-- There the literal is taken to be empty. -/
theorem read?_cut : read? ['\''] '\'' = some (fault .emptyCharacterLiteral 0 1) := rfl

/-- Such a prime opens a literal that is not closed. -/
theorem read?_prime : read? ['\''] = some (fault (.unterminatedLiteral .character) 0 1) := rfl

end Piece

end Lexis
