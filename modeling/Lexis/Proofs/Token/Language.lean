import Lexis.Proofs.Piece.Begins
import Lexis.Proofs.Piece.Decimal
import Lexis.Proofs.Piece.Item
import Lexis.Proofs.Token.Keyword

/-!
# The languages of the kinds

For each kind of token the texts that it may have, said without reading them.

- `Kind.Language`: the texts of a kind.
- `Kind.Family`: kinds whose tokens begin alike. The first codepoint decides on the family.
- `Kind.Language.unique`: no text is in the languages of two kinds.
-/

namespace Lexis

/-! ## Keywords and marks by their texts -/

namespace Keyword

theorem eq_of_text_eq {a b : Keyword} (h : a.text.toList = b.text.toList) : a = b := by
  have ha := a.ofText?_text
  rw [h, b.ofText?_text] at ha
  exact (Option.some.inj ha).symm

theorem isAlpha_of_mem (keyword : Keyword) : ∀ c ∈ keyword.text.toList, c.isAlpha = true := by
  intro c hc
  exact Text.isAlpha_of_isLower (keyword.isLower_of_mem c hc)

theorem exists_cons (keyword : Keyword) :
    ∃ c rest, keyword.text.toList = c :: rest ∧ c.isAlpha = true := by
  cases keyword <;> exact ⟨_, _, rfl, by decide⟩

end Keyword

theorem Mark.eq_of_text_eq {a b : Mark} (h : a.text = b.text) : a = b := by
  have hof : ∀ mark : Mark, Mark.ofText? mark.text = some mark := by
    intro mark
    cases mark <;> decide
  have ha := hof a
  rw [h, hof b] at ha
  exact (Option.some.inj ha).symm

/-! ## Languages -/

/-- A capital and letters, or letters that begin with a small one and are no keyword, or a keyword
and an underscore. -/
def IsIdentifier (text : List Char) : Prop :=
  (∃ c rest, text = c :: rest ∧ c.isUpper = true ∧ ∀ d ∈ rest, d.isAlpha = true) ∨
  ((∃ c rest, text = c :: rest ∧ c.isLower = true ∧ ∀ d ∈ rest, d.isAlpha = true) ∧
    ∀ keyword : Keyword, text ≠ keyword.text.toList) ∨
  ∃ keyword : Keyword, text = keyword.text.toList ++ ['_']

/-- The texts that tokens of a kind may have. The marks that open literals are no tokens. -/
def Kind.Language : Kind → List Char → Prop
  | mark m, text => ¬m.IsQuote ∧ text = m.text
  | quoted .character, text =>
    ∃ item : Item, item.Fits '\'' ['\''] ∧ text = '\'' :: (item.text ++ ['\''])
  | quoted .string, text =>
    ∃ items, Item.AllFit '"' items ['"'] ∧ text = '"' :: (Item.textOf items ++ ['"'])
  | quoted .rawString, text => ∃ body, '\x60' ∉ body ∧ text = '\x60' :: (body ++ ['\x60'])
  | decimal, text => IsDecimal text
  | keyword k, text => text = k.text.toList
  | identifier, text => IsIdentifier text
  | unknown, text =>
    ∃ c, text = [c] ∧ c ≠ ' ' ∧ c ≠ '#' ∧ c.isAlpha = false ∧ c.isDigit = false ∧ ¬Mark.Opens c

/-- An identifier begins with a letter. -/
theorem IsIdentifier.exists_cons {text : List Char} (h : IsIdentifier text) :
    ∃ c rest, text = c :: rest ∧ c.isAlpha = true := by
  rcases h with ⟨c, rest, rfl, hc, -⟩ | ⟨⟨c, rest, rfl, hc, -⟩, -⟩ | ⟨k, rfl⟩
  · exact ⟨c, rest, rfl, Text.isAlpha_of_isUpper hc⟩
  · exact ⟨c, rest, rfl, Text.isAlpha_of_isLower hc⟩
  · obtain ⟨c, rest, hk, hc⟩ := k.exists_cons
    exact ⟨c, rest ++ ['_'], by rw [hk, List.cons_append], hc⟩

/-- An identifier is written with letters, but for the underscore after a keyword. -/
theorem IsIdentifier.letters_or {text : List Char} (h : IsIdentifier text) :
    (∀ d ∈ text, d.isAlpha = true) ∨ ∃ keyword : Keyword, text = keyword.text.toList ++ ['_'] := by
  rcases h with ⟨c, rest, rfl, hc, hrest⟩ | ⟨⟨c, rest, rfl, hc, hrest⟩, -⟩ | hunder
  · exact .inl (List.forall_mem_cons.2 ⟨Text.isAlpha_of_isUpper hc, hrest⟩)
  · exact .inl (List.forall_mem_cons.2 ⟨Text.isAlpha_of_isLower hc, hrest⟩)
  · exact .inr hunder

/-- No keyword is an identifier. -/
theorem IsIdentifier.ne_keyword {text : List Char} (h : IsIdentifier text) (keyword : Keyword) :
    text ≠ keyword.text.toList := by
  rintro rfl
  -- a keyword has neither a capital nor an underscore
  rcases h with ⟨c, rest, htext, hc, -⟩ | ⟨-, hne⟩ | ⟨other, hother⟩
  · have hlower := keyword.isLower_of_mem c (htext ▸ List.mem_cons_self)
    rw [Text.not_isLower_of_isUpper hc] at hlower
    exact absurd hlower (by decide)
  · exact hne keyword rfl
  · have hmem : '_' ∈ keyword.text.toList := by
      rw [hother]
      exact List.mem_append_right _ List.mem_cons_self
    exact absurd (keyword.isLower_of_mem '_' hmem) (by decide)

/-! ## Families -/

namespace Kind

/-- Kinds whose tokens begin alike. -/
inductive Family where
  | mark
  | quoted (form : Quoted)
  | decimal
  | word
  | unknown
  deriving DecidableEq

/-- The family of a kind. -/
def family : Kind → Family
  | mark _ => .mark
  | quoted form => .quoted form
  | decimal => .decimal
  | keyword _ => .word
  | identifier => .word
  | unknown => .unknown

/-- The family of the tokens that begin with a codepoint. -/
def Family.ofFirst (c : Char) : Family :=
  if c = '\'' then .quoted .character
  else if c = '"' then .quoted .string
  else if c = '\x60' then .quoted .rawString
  else if Mark.Opens c then .mark
  else if c.isDigit then .decimal
  else if c.isAlpha then .word
  else .unknown

/-- Where no mark and no quoted literal begins, three families are left. -/
theorem Family.ofFirst_of_not_opens {c : Char} (hmark : ¬Mark.Opens c) :
    ofFirst c = if c.isDigit then .decimal else if c.isAlpha then .word else .unknown := by
  have hne : ∀ d : Char, Mark.Opens d → c ≠ d := by
    rintro d hd rfl
    exact hmark hd
  rw [ofFirst, if_neg (hne '\'' (by decide)), if_neg (hne '"' (by decide)),
    if_neg (hne '\x60' (by decide)), if_neg hmark]

theorem Family.ofFirst_of_isDigit {c : Char} (hc : c.isDigit = true) : ofFirst c = .decimal := by
  rw [ofFirst_of_not_opens (Mark.not_opens_of_isDigit hc), if_pos hc]

theorem Family.ofFirst_of_isAlpha {c : Char} (hc : c.isAlpha = true) : ofFirst c = .word := by
  have hdigit : ¬c.isDigit = true := Bool.eq_false_iff.1 (Text.not_isDigit_of_isAlpha hc)
  rw [ofFirst_of_not_opens (Mark.not_opens_of_isAlpha hc), if_neg hdigit, if_pos hc]

/-- **The first codepoint of a token decides on the family of its kind.** -/
theorem Language.ofFirst_eq {kind : Kind} {text : List Char} (h : kind.Language text) :
    ∃ c rest, text = c :: rest ∧ Family.ofFirst c = kind.family := by
  cases kind with
  | mark m =>
    obtain ⟨hquote, rfl⟩ := h
    -- the table is gone through; the delimiters are no tokens
    cases m <;> first
      | exact ⟨_, _, rfl, by decide⟩
      | exact absurd (by simp [Mark.IsQuote]) hquote
  | quoted form =>
    cases form with
    | character =>
      obtain ⟨item, -, rfl⟩ := h
      exact ⟨_, _, rfl, rfl⟩
    | string =>
      obtain ⟨items, -, rfl⟩ := h
      exact ⟨_, _, rfl, rfl⟩
    | rawString =>
      obtain ⟨body, -, rfl⟩ := h
      exact ⟨_, _, rfl, rfl⟩
  | decimal =>
    obtain ⟨mantissa, exponent, hmantissa, -, rfl⟩ := h
    obtain ⟨c, rest, rfl, hc⟩ := hmantissa.exists_cons
    exact ⟨c, rest ++ exponent, rfl, Family.ofFirst_of_isDigit hc⟩
  | keyword k =>
    obtain rfl := h
    obtain ⟨c, rest, hk, hc⟩ := k.exists_cons
    exact ⟨c, rest, hk, Family.ofFirst_of_isAlpha hc⟩
  | identifier =>
    obtain ⟨c, rest, rfl, hc⟩ := IsIdentifier.exists_cons h
    exact ⟨c, rest, rfl, Family.ofFirst_of_isAlpha hc⟩
  | unknown =>
    obtain ⟨c, rfl, -, -, halpha, hdigit, hmark⟩ := h
    refine ⟨c, [], rfl, ?_⟩
    -- what is left over after all other families
    rw [Family.ofFirst_of_not_opens hmark, if_neg (Bool.eq_false_iff.1 hdigit),
      if_neg (Bool.eq_false_iff.1 halpha)]
    rfl

/-- Tokens that a text begins with are of one family. -/
theorem Language.family_eq {kind other : Kind} {text more s : List Char} (h : kind.Language text)
    (h' : other.Language more) (hs : text <+: s) (hs' : more <+: s) :
    other.family = kind.family := by
  obtain ⟨c, rest, rfl, hc⟩ := h.ofFirst_eq
  obtain ⟨d, rest', rfl, hd⟩ := h'.ofFirst_eq
  obtain ⟨after, rfl⟩ := hs
  obtain rfl : d = c := (List.cons_prefix_cons.1 hs').1
  exact hd.symm.trans hc

/-- **No text is in the languages of two kinds.** -/
theorem Language.unique {kind other : Kind} {text : List Char} (h : kind.Language text)
    (h' : other.Language text) : other = kind := by
  -- only kinds of one family are left to tell apart
  have hfamily := h.family_eq h' List.prefix_rfl List.prefix_rfl
  cases kind with
  | mark m =>
    cases other with
    | mark m' => rw [Mark.eq_of_text_eq (h'.2.symm.trans h.2)]
    | _ => exact absurd hfamily (by simp [family])
  | quoted form =>
    cases other with
    | quoted form' => rw [Family.quoted.inj hfamily]
    | _ => exact absurd hfamily (by simp [family])
  | decimal =>
    cases other with
    | decimal => rfl
    | _ => exact absurd hfamily (by simp [family])
  | keyword k =>
    cases other with
    | keyword k' => rw [Keyword.eq_of_text_eq (h'.symm.trans h)]
    -- words are the one family with two kinds
    | identifier => exact absurd h (IsIdentifier.ne_keyword h' k)
    | _ => exact absurd hfamily (by simp [family])
  | identifier =>
    cases other with
    | keyword k => exact absurd h' (IsIdentifier.ne_keyword h k)
    | identifier => rfl
    | _ => exact absurd hfamily (by simp [family])
  | unknown =>
    cases other with
    | unknown => rfl
    | _ => exact absurd hfamily (by simp [family])

end Kind

end Lexis
