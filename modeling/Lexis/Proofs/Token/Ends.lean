import Lexis.Proofs.Piece.Meaning

/-!
# Where tokens end

A token ends with its text unless the codepoint behind it goes on with it. There is one exception: a
point behind a single run of digits ends it or not by the codepoint behind the point. So no token
depends on anything further on, and a gap ends every token.

- `Kind.GoesOn`: the codepoints that go on with a token.
- `Kind.EndsBefore`: a token ends where another text follows.
- `Piece.read?_append_eq_token_iff`: a token is read exactly where its text stands and ends.
- `GapAhead`: nothing follows, or what begins a gap.
- `SameAhead`: texts that begin alike, for two codepoints or up to a gap.
- `Kind.EndsBefore.of_sameAhead`: what a token depends on is two codepoints, and less before a gap.
- `Kind.EndsBefore.append_newline`: no token depends on a newline that is put behind the text.
-/

namespace Lexis

open Digits (IsRun isRunChar)

/-! ## What goes on with a token -/

/-- The codepoint goes on with the token when it stands right behind it: both belong to a longer
token, or the codepoint is the marker of an exponent, whether or not there are digits behind it. -/
def Kind.GoesOn : Kind → List Char → Char → Prop
  | mark m, _, c => ∃ other : Mark, other.text = m.text ++ [c]
  | quoted _, _, _ => False
  | decimal, text, c => isRunChar c = true ∨ (IsMantissa text ∧ (c = 'e' ∨ c = 'E'))
  | keyword _, _, c => c.isAlpha = true ∨ c = '_'
  | identifier, text, c => c.isAlpha = true ∧ ∀ d ∈ text, d.isAlpha = true
  | unknown, _, _ => False

/-- The token ends where `rest` follows its text. -/
structure Kind.EndsBefore (kind : Kind) (text rest : List Char) : Prop where
  /-- The next codepoint does not go on with the token. -/
  head : ∀ c, rest.head? = some c → ¬kind.GoesOn text c
  /-- A point behind a single run of digits has no digit behind it. -/
  point : IsRun text → ∀ d t, rest = '.' :: d :: t → d.isDigit = false

variable {kind : Kind} {text rest : List Char} {c : Char}

/-! ## Tokens that end are read -/

/-- No mark is longer than two codepoints. -/
theorem Mark.length_text_le (mark : Mark) : mark.text.length ≤ 2 := by
  cases mark <;> decide

/-- A mark is the one at the head of a text where no codepoint behind it makes it a longer one. -/
theorem Mark.atHead?_append {m : Mark} (hquote : ¬m.IsQuote)
    (hrest : ∀ c, rest.head? = some c → ∀ other : Mark, other.text ≠ m.text ++ [c]) :
    atHead? (m.text ++ rest) = some m := by
  obtain ⟨c, tail, htext⟩ := List.exists_cons_of_length_pos m.text_length_pos
  have hhead : m.text.head? = some c := by rw [htext]; rfl
  have hdelim : isDelimiter c = false :=
    Bool.eq_false_iff.2 (mt (isDelimiter_head_iff hhead).1 hquote)
  cases hat : atHead? (m.text ++ rest) with
  -- the mark itself fits, so some mark is found
  | none =>
    rw [htext, List.cons_append] at hat
    exact absurd ⟨m, hhead⟩ (not_opens_of_atHead? hdelim hat)
  | some found =>
    obtain ⟨hpre, -, hle⟩ := atHead?_eq_some hat
    have hm : m.text <+: m.text ++ rest := List.prefix_append _ _
    obtain ⟨more, hmore⟩ := List.prefix_of_prefix_length_le hm hpre (hle m hm)
    -- a longer mark has just one codepoint more, and that is the next one
    cases more with
    | nil =>
      rw [List.append_nil] at hmore
      rw [Mark.eq_of_text_eq hmore]
    | cons d more =>
      have hlen := found.length_text_le
      have hpos := m.text_length_pos
      rw [← hmore, List.length_append, List.length_cons] at hlen
      obtain rfl : more = [] := List.length_eq_zero_iff.1 (by omega)
      rw [← hmore, List.prefix_append_right_inj] at hpre
      obtain ⟨after, rfl⟩ := hpre
      exact absurd hmore.symm (hrest d rfl found)

namespace Piece

/-- A mantissa and a marker are read on for digits. -/
theorem decimal_append_marker {mantissa : List Char} {marker : Char} (hm : IsMantissa mantissa)
    (hmarker : marker = 'e' ∨ marker = 'E') (rest : List Char) :
    decimal (mantissa ++ marker :: rest) =
      match Digits.read? rest with
      | some (run, _) => token .decimal (mantissa ++ marker :: run)
      | none => fault .missingExponentDigit (mantissa.length + 1) (mantissa.length + 1) := by
  have hread : Mantissa.read (mantissa ++ marker :: rest) = (mantissa, marker :: rest) := by
    refine Mantissa.read_append hm ?_ ?_
    · rintro d hd
      obtain rfl := Option.some.inj hd
      rcases hmarker with rfl | rfl <;> decide
    · rintro - d t ht
      obtain rfl : marker = '.' := (List.cons.inj ht).1
      exact absurd hmarker (by decide)
  rw [decimal, hread]
  exact if_pos hmarker

theorem decimal_of_endsBefore (h : IsDecimal text) (hends : Kind.decimal.EndsBefore text rest) :
    decimal (text ++ rest) = token .decimal text := by
  have hrest : ∀ d, rest.head? = some d → isRunChar d = false := by
    intro d hd
    exact Bool.eq_false_iff.2 fun hrun => hends.head d hd (.inl hrun)
  obtain ⟨mantissa, exponent, hm, rfl | ⟨marker, run, rfl, hmarker, hrun⟩, rfl⟩ := h
  · rw [List.append_nil] at hends ⊢
    rw [decimal, Mantissa.read_append hm hrest hends.point]
    cases rest with
    | nil => rfl
    | cons d rest => exact if_neg fun hd => hends.head d rfl (.inr ⟨hm, hd⟩)
  · rw [List.append_assoc, List.cons_append, decimal_append_marker hm hmarker,
      Digits.read?_append hrun hrest]

/-- Letters that are no keyword are read as a word where they end. -/
theorem word_append {letters : List Char} (hletters : ∀ d ∈ letters, d.isAlpha = true)
    (hnone : Keyword.ofText? letters = none)
    (hrest : ∀ d, rest.head? = some d → d.isAlpha = false) :
    word (letters ++ rest) = token .identifier letters := by
  rw [word, Text.takeWhile_append_of_head hletters hrest, Keyword.ofLetters?_eq, hnone]

/-- A keyword is read as a word where its letters end, and takes in an underscore. -/
theorem word_keyword_append {k : Keyword}
    (hrest : ∀ d, rest.head? = some d → d.isAlpha = false) :
    word (k.text.toList ++ rest) =
      if rest.head? = some '_' then token .identifier (k.text.toList ++ ['_'])
      else token (.keyword k) k.text.toList := by
  rw [word, Text.takeWhile_append_of_head k.isAlpha_of_mem hrest,
    Text.dropWhile_append_of_head k.isAlpha_of_mem hrest, Keyword.ofLetters?_eq, k.ofText?_text]

theorem word_of_endsBefore_keyword {k : Keyword}
    (hends : (Kind.keyword k).EndsBefore k.text.toList rest) :
    word (k.text.toList ++ rest) = token (.keyword k) k.text.toList := by
  have hrest : ∀ d, rest.head? = some d → d.isAlpha = false := by
    intro d hd
    exact Bool.eq_false_iff.2 fun halpha => hends.head d hd (.inl halpha)
  have hunder : rest.head? ≠ some '_' := fun hd => hends.head '_' hd (.inr rfl)
  rw [word_keyword_append hrest, if_neg hunder]

theorem word_of_endsBefore_identifier (h : IsIdentifier text)
    (hends : Kind.identifier.EndsBefore text rest) :
    word (text ++ rest) = token .identifier text := by
  rcases h.letters_or with hletters | ⟨k, rfl⟩
  · have hnone : Keyword.ofText? text = none := by
      cases hof : Keyword.ofText? text with
      | none => rfl
      | some k => exact absurd (Keyword.ofText?_eq_some_iff.1 hof) (h.ne_keyword k)
    refine word_append hletters hnone fun d hd => ?_
    exact Bool.eq_false_iff.2 fun halpha => hends.head d hd ⟨halpha, hletters⟩
  · -- the keyword's letters end at the underscore, whatever comes after it
    have hunder : ∀ d, ('_' :: rest).head? = some d → d.isAlpha = false := by
      rintro d hd
      obtain rfl := Option.some.inj hd
      decide
    rw [List.append_assoc, List.singleton_append, word_keyword_append hunder]
    exact if_pos rfl

/-- **A token that ends is read**, whatever is further on. -/
theorem read?_of_endsBefore (h : kind.Language text) (hends : kind.EndsBefore text rest) :
    read? (text ++ rest) = some (token kind text) := by
  cases kind with
  | mark m =>
    obtain ⟨hquote, rfl⟩ := h
    -- a longer mark would begin with the codepoint behind this one
    refine read?_of_begins (.mark (Mark.atHead?_append hquote fun d hd other hother => ?_))
    exact hends.head d hd ⟨other, hother⟩
  | quoted form => exact Kind.read?_of_quoted h (List.prefix_append text rest)
  | decimal =>
    obtain ⟨c, tail, htext, hc⟩ := IsDecimal.exists_cons h
    -- the runs of a decimal are the longest, since it ends here
    rw [← decimal_of_endsBefore h hends, htext]
    exact read?_of_begins (.decimal hc (tail ++ rest))
  | keyword k =>
    obtain rfl := h
    obtain ⟨c, tail, htext, hc⟩ := k.exists_cons
    -- no underscore follows, so the letters stay a keyword
    rw [← word_of_endsBefore_keyword hends, htext]
    exact read?_of_begins (.word hc (tail ++ rest))
  | identifier =>
    obtain ⟨c, tail, htext, hc⟩ := IsIdentifier.exists_cons h
    rw [← word_of_endsBefore_identifier h hends, htext]
    exact read?_of_begins (.word hc (tail ++ rest))
  | unknown =>
    obtain ⟨c, rfl, hspace, hsign, halpha, hdigit, hmark⟩ := h
    exact read?_of_begins (.unknown hspace hsign hmark hdigit halpha rest)

end Piece

/-! ## Tokens that are read end -/

/-- Letters are a keyword or an identifier. -/
theorem isTokenText_of_letters (hne : text ≠ []) (h : ∀ d ∈ text, d.isAlpha = true) :
    IsTokenText text := by
  obtain ⟨c, tail, rfl⟩ := List.exists_cons_of_ne_nil hne
  obtain ⟨hc, htail⟩ := List.forall_mem_cons.1 h
  cases hof : Keyword.ofText? (c :: tail) with
  | none => exact ⟨.identifier, Kind.isIdentifier_of_letters hc htail hof⟩
  | some k => exact ⟨.keyword k, Keyword.ofText?_eq_some_iff.1 hof⟩

/-- A run of digits goes on with digits and underscores. -/
theorem Digits.IsRun.concat (h : IsRun text) (hc : Digits.isRunChar c = true) :
    IsRun (text ++ [c]) := by
  obtain ⟨d, tail, rfl, hd, htail⟩ := h
  refine ⟨d, tail ++ [c], rfl, hd, ?_⟩
  exact List.forall_mem_append.2 ⟨htail, List.forall_mem_singleton.2 hc⟩

/-- A decimal goes on with digits and underscores: its last part is a run. -/
theorem IsDecimal.concat (h : IsDecimal text) (hc : isRunChar c = true) :
    IsDecimal (text ++ [c]) := by
  obtain ⟨mantissa, exponent, hm, rfl | ⟨marker, run, rfl, hmarker, hrun⟩, rfl⟩ := h
  · refine ⟨mantissa ++ [c], [], ?_, .inl rfl, by simp⟩
    rcases hm with hrun | ⟨whole, fraction, hwhole, hfraction, rfl⟩
    · exact .inl (hrun.concat hc)
    · exact .inr ⟨whole, fraction ++ [c], hwhole, hfraction.concat hc, by simp⟩
  · refine ⟨mantissa, marker :: (run ++ [c]), hm, .inr ⟨marker, run ++ [c], rfl, hmarker, ?_⟩, ?_⟩
    · exact hrun.concat hc
    · simp

/-- A run of digits, a point and a digit are a decimal. -/
theorem Digits.IsRun.isDecimal_append_point (h : IsRun text) {d : Char} (hd : d.isDigit = true) :
    IsDecimal (text ++ ['.', d]) := by
  have hdigit : IsRun [d] := ⟨d, [], rfl, hd, fun e he => absurd he List.not_mem_nil⟩
  exact ⟨text ++ ['.', d], [], .inr ⟨text, [d], h, hdigit, rfl⟩, .inl rfl, (List.append_nil _).symm⟩

/-- The longest token does not go on as a token. -/
theorem not_isTokenText_append (more : List Char)
    (h : Text.IsLongest IsTokenText text (text ++ (more ++ rest))) (hmore : more ≠ []) :
    ¬IsTokenText (text ++ more) := by
  intro htoken
  have hpre : text ++ more <+: text ++ (more ++ rest) := ⟨rest, List.append_assoc _ _ _⟩
  have hle := h.length_le _ htoken hpre
  have hpos := List.length_pos_iff.2 hmore
  rw [List.length_append] at hle
  omega

/-- A codepoint that goes on with a token makes it a longer one, but for the marker of an
exponent. -/
theorem Kind.GoesOn.isTokenText_or (h : kind.Language text) (hgo : kind.GoesOn text c) :
    IsTokenText (text ++ [c]) ∨ (kind = .decimal ∧ IsMantissa text ∧ (c = 'e' ∨ c = 'E')) := by
  cases kind with
  | mark m =>
    obtain ⟨hquote, rfl⟩ := h
    obtain ⟨other, hother⟩ := hgo
    refine .inl ⟨.mark other, ?_, hother.symm⟩
    -- the marks that open literals are single codepoints
    have hpos := m.text_length_pos
    have hlen := congrArg List.length hother
    rw [List.length_append, List.length_singleton] at hlen
    rintro (rfl | rfl | rfl) <;> exact absurd hlen (Nat.ne_of_lt (Nat.succ_lt_succ hpos))
  | quoted form => exact hgo.elim
  | decimal =>
    -- a digit or an underscore makes a decimal; a marker alone does not
    rcases hgo with hrun | ⟨hm, hmarker⟩
    · exact .inl ⟨.decimal, IsDecimal.concat h hrun⟩
    · exact .inr ⟨rfl, hm, hmarker⟩
  | keyword k =>
    obtain rfl := h
    -- a letter makes a longer word, and an underscore an identifier
    rcases hgo with halpha | rfl
    · refine .inl (isTokenText_of_letters (by simp) ?_)
      exact List.forall_mem_append.2 ⟨k.isAlpha_of_mem, List.forall_mem_singleton.2 halpha⟩
    · exact .inl ⟨.identifier, .inr (.inr ⟨k, rfl⟩)⟩
  | identifier =>
    obtain ⟨halpha, hletters⟩ := hgo
    refine .inl (isTokenText_of_letters (by simp) ?_)
    exact List.forall_mem_append.2 ⟨hletters, List.forall_mem_singleton.2 halpha⟩
  | unknown => exact hgo.elim

namespace Piece

/-- No decimal is read up to a marker. -/
theorem read?_append_marker_ne (hm : IsMantissa text) (hmarker : c = 'e' ∨ c = 'E') :
    read? (text ++ c :: rest) ≠ some (token .decimal text) := by
  obtain ⟨d, tail, htext, hd⟩ := hm.exists_cons
  have hread : read? (text ++ c :: rest) = some (decimal (text ++ c :: rest)) := by
    rw [htext]
    exact read?_of_begins (.decimal hd (tail ++ c :: rest))
  rw [hread, decimal_append_marker hm hmarker]
  split <;> simp

/-- **A token is read exactly where its text stands and ends.** -/
theorem read?_append_eq_token_iff :
    read? (text ++ rest) = some (token kind text) ↔
      kind.Language text ∧ kind.EndsBefore text rest := by
  refine ⟨fun h => ?_, fun h => read?_of_endsBefore h.1 h.2⟩
  obtain ⟨hkind, hlongest⟩ := means_of_read? h
  refine ⟨hkind, ?_, ?_⟩
  · intro c hc hgo
    obtain ⟨rest, rfl⟩ := List.head?_eq_some_iff.1 hc
    rcases hgo.isTokenText_or hkind with htoken | ⟨rfl, hm, hmarker⟩
    · exact not_isTokenText_append [c] hlongest (by simp) htoken
    · exact read?_append_marker_ne hm hmarker h
  · rintro hrun d t rfl
    refine Bool.eq_false_iff.2 fun hd => ?_
    exact not_isTokenText_append ['.', d] hlongest (by simp)
      ⟨.decimal, hrun.isDecimal_append_point hd⟩

end Piece

/-! ## What a token depends on -/

/-- Nothing follows, or a space or a number sign, which begin a gap. -/
def GapAhead (rest : List Char) : Prop := ∀ c, rest.head? = some c → c = ' ' ∨ c = '#'

/-- The second text begins as the first one does, for two codepoints or up to a gap. -/
def SameAhead (rest other : List Char) : Prop :=
  ∃ common after after', rest = common ++ after ∧ other = common ++ after' ∧
    (GapAhead after' ∨ 2 ≤ common.length)

theorem sameAhead_of_gapAhead {other : List Char} (h : GapAhead other) : SameAhead rest other :=
  ⟨[], rest, other, rfl, rfl, .inl h⟩

/-- Texts that begin alike do so after the same text. -/
theorem SameAhead.append {other : List Char} (h : SameAhead rest other) (text : List Char) :
    SameAhead (text ++ rest) (text ++ other) := by
  obtain ⟨common, after, after', rfl, rfl, hafter⟩ := h
  refine ⟨text ++ common, after, after', by simp, by simp, hafter.imp_right fun hlen => ?_⟩
  rw [List.length_append]
  exact Nat.le_add_left_of_le hlen

namespace Kind

/-- No token goes on with a space, a number sign or a newline. -/
theorem not_goesOn_of_apart (hc : c = ' ' ∨ c = '#' ∨ c = '\n') : ¬kind.GoesOn text c := by
  intro hgo
  cases kind with
  | mark m =>
    obtain ⟨other, hother⟩ := hgo
    have hmem : c ∈ other.text := by simp [hother]
    rcases hc with rfl | rfl | rfl <;> revert hmem <;> cases other <;> decide
  | quoted form => exact hgo
  | decimal =>
    rcases hgo with hrun | ⟨-, hmarker⟩
    · rcases hc with rfl | rfl | rfl <;> exact absurd hrun (by decide)
    · rcases hc with rfl | rfl | rfl <;> exact absurd hmarker (by decide)
  | keyword k =>
    rcases hgo with halpha | rfl
    · rcases hc with rfl | rfl | rfl <;> exact absurd halpha (by decide)
    · exact absurd hc (by decide)
  | identifier => rcases hc with rfl | rfl | rfl <;> exact absurd hgo.1 (by decide)
  | unknown => exact hgo

/-- A token that ends before one text ends before every text that begins alike, for two codepoints
or up to one that goes on with no token. -/
theorem EndsBefore.of_append {common after after' : List Char}
    (h : kind.EndsBefore text (common ++ after))
    (hafter : (∀ c, after'.head? = some c → c = ' ' ∨ c = '#' ∨ c = '\n') ∨ 2 ≤ common.length) :
    kind.EndsBefore text (common ++ after') := by
  constructor
  · intro c hc
    cases common with
    | nil => exact not_goesOn_of_apart (hafter.resolve_right (by simp) c hc)
    | cons d common => exact h.head c hc
  · intro hrun d t ht
    rcases common with _ | ⟨e, _ | ⟨e', common⟩⟩
    · -- what goes on with no token is no point
      obtain rfl : after' = '.' :: d :: t := ht
      exact absurd (hafter.resolve_right (by simp) '.' rfl) (by decide)
    · obtain ⟨-, rfl⟩ : e = '.' ∧ after' = d :: t := List.cons.inj ht
      rcases hafter.resolve_right (by simp) d rfl with rfl | rfl | rfl <;> decide
    · obtain ⟨rfl, ht'⟩ : e = '.' ∧ e' :: (common ++ after') = d :: t := List.cons.inj ht
      obtain ⟨rfl, -⟩ := List.cons.inj ht'
      exact h.point hrun e' (common ++ after) rfl

/-- **What a token depends on is two codepoints**, and less before a gap: a token that ends before
one text ends before every text that begins alike. -/
theorem EndsBefore.of_sameAhead {other : List Char} (h : kind.EndsBefore text rest)
    (hsame : SameAhead rest other) : kind.EndsBefore text other := by
  obtain ⟨common, after, after', rfl, rfl, hafter⟩ := hsame
  refine h.of_append (hafter.imp_left fun hgap c hc => ?_)
  exact (hgap c hc).imp_right .inl

/-- **A gap ends every token**, and so does the end of the text. -/
theorem endsBefore_of_gapAhead (h : GapAhead rest) : kind.EndsBefore text rest := by
  have hend : kind.EndsBefore text [] :=
    ⟨fun c hc => absurd hc (by simp), fun _ d t ht => absurd ht (by simp)⟩
  exact hend.of_sameAhead (sameAhead_of_gapAhead h)

end Kind

end Lexis
