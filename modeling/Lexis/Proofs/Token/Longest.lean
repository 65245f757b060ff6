import Lexis.Proofs.Piece.Literal
import Lexis.Proofs.Token.Language

/-!
# Tokens are the longest there are

Reading never compares one token with another. That what it takes is the longest beginning in any of
the languages has a reason of its own in each family.

- `IsTokenText`: a text that is in the language of some kind.
- `Kind.isLongest_of_family`: only tokens of the same family compete.
- `Kind.isLongest_mark`, `Kind.isLongest_quoted`, `Kind.isLongest_decimal`, `Piece.word_cases`,
  `Kind.isLongest_unknown`: a token of each family is the longest.
-/

namespace Lexis

/-- A text that some kind of token may have. -/
def IsTokenText (text : List Char) : Prop := ∃ kind : Kind, kind.Language text

namespace Kind

variable {kind : Kind} {text s : List Char}

/-- **Only tokens of the same family compete.** -/
theorem isLongest_of_family (h : kind.Language text) (hs : text <+: s)
    (hle : ∀ (other : Kind) (more : List Char), other.family = kind.family →
      other.Language more → more <+: s → more.length ≤ text.length) :
    Text.IsLongest IsTokenText text s := by
  refine ⟨⟨kind, h⟩, hs, ?_⟩
  rintro more ⟨other, hmore⟩ hpre
  exact hle other more (h.family_eq hmore hs hpre) hmore hpre

/-- The mark at the head of a text is the longest token: the table has longer marks first. -/
theorem isLongest_mark {m : Mark} (h : Mark.atHead? s = some m) :
    (mark m).Language m.text ∧ Text.IsLongest IsTokenText m.text s := by
  obtain ⟨hpre, hquote, hle⟩ := Mark.atHead?_eq_some h
  have hm : (mark m).Language m.text := ⟨hquote, rfl⟩
  refine ⟨hm, isLongest_of_family hm hpre ?_⟩
  intro other more hfamily hmore hs
  cases other with
  | mark m' =>
    obtain ⟨-, rfl⟩ := hmore
    exact hle m' hs
  | _ => exact absurd hfamily (by simp [family])

/-- A quoted literal is read wherever it stands: it says itself where it ends. -/
theorem read?_of_quoted {form : Quoted} (h : (quoted form).Language text) (hs : text <+: s) :
    Piece.read? s = some (.token (quoted form) text) := by
  -- whatever follows the literal, the codepoint after each of its items stays the same
  obtain ⟨rest, rfl⟩ := hs
  cases form with
  | character =>
    obtain ⟨item, hfits, rfl⟩ := h
    have hfits' : item.Fits '\'' ('\'' :: rest) := hfits.congr rfl
    rw [show '\'' :: (item.text ++ ['\'']) ++ rest = '\'' :: (item.text ++ '\'' :: rest) by simp,
      Piece.read?_of_begins (.character _), Piece.character_of_fits hfits']
    rfl
  | string =>
    obtain ⟨items, hfit, rfl⟩ := h
    have hfit' : Item.AllFit '"' items ('"' :: rest) := hfit.congr rfl
    rw [show '"' :: (Item.textOf items ++ ['"']) ++ rest = '"' :: (Item.textOf items ++ '"' :: rest)
        by simp,
      Piece.read?_of_begins (.string _), Piece.string_of_allFit hfit']
  | rawString =>
    obtain ⟨body, hbody, rfl⟩ := h
    rw [show '\x60' :: (body ++ ['\x60']) ++ rest = '\x60' :: (body ++ '\x60' :: rest) by simp,
      Piece.read?_of_begins (.rawString _), Piece.rawString_of_not_mem hbody]

/-- A quoted literal is the longest token, and the only one. -/
theorem isLongest_quoted {form : Quoted} (h : (quoted form).Language text) (hs : text <+: s) :
    Text.IsLongest IsTokenText text s := by
  refine isLongest_of_family h hs ?_
  intro other more hfamily hmore hpre
  cases other with
  | quoted form' =>
    -- both are what is read at the head of `s`
    obtain rfl : form' = form := Family.quoted.inj hfamily
    have hread := (read?_of_quoted hmore hpre).symm.trans (read?_of_quoted h hs)
    rw [(Piece.token.inj (Option.some.inj hread)).2]
  | _ => exact absurd hfamily (by simp [family])

/-- The longest decimal is the longest token. -/
theorem isLongest_decimal (h : Text.IsLongest IsDecimal text s) :
    Text.IsLongest IsTokenText text s := by
  have hmem : decimal.Language text := h.mem
  refine isLongest_of_family hmem h.isPrefix ?_
  intro other more hfamily hmore hs
  cases other with
  | decimal => exact h.length_le more hmore hs
  | _ => exact absurd hfamily (by simp [family])

/-- An unknown codepoint is the longest token: no other token begins with it. -/
theorem isLongest_unknown (h : unknown.Language text) (hs : text <+: s) :
    Text.IsLongest IsTokenText text s := by
  refine isLongest_of_family h hs ?_
  intro other more hfamily hmore hpre
  cases other with
  | unknown =>
    obtain ⟨c, rfl, -⟩ := h
    obtain ⟨d, rfl, -⟩ := hmore
    exact Nat.le_refl 1
  | _ => exact absurd hfamily (by simp [family])

/-! ## Words -/

/-- A word that a text begins with is part of the letters there, or it is those letters and an
underscore, and they are a keyword. -/
theorem word_isPrefix_or {other : Kind} {more : List Char} (hfamily : other.family = .word)
    (h : other.Language more) (hs : more <+: s) :
    more <+: s.takeWhile Char.isAlpha ∨
      ∃ keyword : Keyword, more = keyword.text.toList ++ ['_'] ∧
        s.takeWhile Char.isAlpha = keyword.text.toList ∧
        (s.dropWhile Char.isAlpha).head? = some '_' := by
  cases other with
  | keyword k =>
    obtain rfl := h
    -- all of a keyword is letters
    exact .inl (Text.isPrefix_takeWhile k.isAlpha_of_mem hs)
  | identifier =>
    rcases IsIdentifier.letters_or h with hletters | ⟨k, rfl⟩
    · exact .inl (Text.isPrefix_takeWhile hletters hs)
    · -- the letters stop before the underscore, so they are just the keyword
      right
      obtain ⟨rest, rfl⟩ := hs
      have hrest : ∀ d, ('_' :: rest).head? = some d → d.isAlpha = false := by
        rintro d hd
        obtain rfl := Option.some.inj hd
        decide
      rw [List.append_assoc, List.singleton_append]
      refine ⟨k, rfl, Text.takeWhile_append_of_head k.isAlpha_of_mem hrest, ?_⟩
      rw [Text.dropWhile_append_of_head k.isAlpha_of_mem hrest]
      rfl
  | _ => exact absurd hfamily (by simp [family])

/-- Letters that are no keyword are an identifier. -/
theorem isIdentifier_of_letters {c : Char} {rest : List Char} (hc : c.isAlpha = true)
    (hrest : ∀ d ∈ rest, d.isAlpha = true) (hnone : Keyword.ofText? (c :: rest) = none) :
    IsIdentifier (c :: rest) := by
  rcases Text.isAlpha_iff.1 hc with hupper | hlower
  · exact .inl ⟨c, rest, rfl, hupper, hrest⟩
  · refine .inr (.inl ⟨⟨c, rest, rfl, hlower, hrest⟩, fun keyword heq => ?_⟩)
    rw [Keyword.ofText?_eq_some_iff.2 heq] at hnone
    exact absurd hnone (by simp)

/-- The letters that a text begins with are the longest token, unless they are a keyword and an
underscore follows. -/
theorem isLongest_letters (hfamily : kind.family = .word)
    (h : kind.Language (s.takeWhile Char.isAlpha))
    (hunder : ∀ keyword : Keyword, s.takeWhile Char.isAlpha = keyword.text.toList →
      (s.dropWhile Char.isAlpha).head? ≠ some '_') :
    Text.IsLongest IsTokenText (s.takeWhile Char.isAlpha) s := by
  refine isLongest_of_family h (List.takeWhile_prefix Char.isAlpha) ?_
  intro other more hother hmore hs
  rcases word_isPrefix_or (hother.trans hfamily) hmore hs with hle | ⟨keyword, -, hkeyword, hhead⟩
  · exact hle.length_le
  · exact absurd hhead (hunder keyword hkeyword)

/-- A keyword and the underscore after it are the longest token. -/
theorem isLongest_underscore {keyword : Keyword}
    (hletters : s.takeWhile Char.isAlpha = keyword.text.toList)
    (hunder : (s.dropWhile Char.isAlpha).head? = some '_') :
    identifier.Language (s.takeWhile Char.isAlpha ++ ['_']) ∧
      Text.IsLongest IsTokenText (s.takeWhile Char.isAlpha ++ ['_']) s := by
  have hid : identifier.Language (s.takeWhile Char.isAlpha ++ ['_']) :=
    .inr (.inr ⟨keyword, by rw [hletters]⟩)
  obtain ⟨rest, hrest⟩ := List.head?_eq_some_iff.1 hunder
  have hpre : s.takeWhile Char.isAlpha ++ ['_'] <+: s := by
    refine ⟨rest, ?_⟩
    rw [List.append_assoc, List.singleton_append, ← hrest, List.takeWhile_append_dropWhile]
  refine ⟨hid, isLongest_of_family hid hpre ?_⟩
  intro other more hother hmore hs
  rw [List.length_append]
  rcases word_isPrefix_or hother hmore hs with hle | ⟨keyword', rfl, hletters', -⟩
  · exact Nat.le_add_right_of_le hle.length_le
  · rw [hletters', List.length_append]

end Kind

/-- **A letter begins a word**, and the word is the longest token. -/
theorem Piece.word_cases {c : Char} (hc : c.isAlpha = true) (t : List Char) :
    ∃ kind text, word (c :: t) = token kind text ∧ kind.Language text ∧
      Text.IsLongest IsTokenText text (c :: t) := by
  have hcons : (c :: t).takeWhile Char.isAlpha = c :: t.takeWhile Char.isAlpha :=
    List.takeWhile_cons_of_pos hc
  cases hof : Keyword.ofText? ((c :: t).takeWhile Char.isAlpha) with
  | none =>
    have hid : Kind.identifier.Language ((c :: t).takeWhile Char.isAlpha) := by
      rw [hcons] at hof ⊢
      exact Kind.isIdentifier_of_letters hc (fun d hd => Text.of_mem_takeWhile hd) hof
    refine ⟨.identifier, _, by rw [word, Keyword.ofLetters?_eq, hof], hid,
      Kind.isLongest_letters rfl hid ?_⟩
    intro keyword hkeyword
    rw [Keyword.ofText?_eq_some_iff.2 hkeyword] at hof
    exact absurd hof (by simp)
  | some keyword =>
    have hkeyword := Keyword.ofText?_eq_some_iff.1 hof
    -- an underscore right behind a keyword makes it an identifier
    by_cases hunder : ((c :: t).dropWhile Char.isAlpha).head? = some '_'
    · obtain ⟨hid, hlongest⟩ := Kind.isLongest_underscore hkeyword hunder
      exact ⟨.identifier, _, by rw [word, Keyword.ofLetters?_eq, hof]; exact if_pos hunder, hid,
        hlongest⟩
    · have hkind : (Kind.keyword keyword).Language ((c :: t).takeWhile Char.isAlpha) := hkeyword
      exact ⟨.keyword keyword, _, by rw [word, Keyword.ofLetters?_eq, hof]; exact if_neg hunder,
        hkind, Kind.isLongest_letters rfl hkind fun _ _ => hunder⟩

end Lexis
