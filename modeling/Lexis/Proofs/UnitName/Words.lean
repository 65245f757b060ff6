import Lexis.Proofs.Scan.Layout
import Lexis.Proofs.UnitName.Faults

/-!
# Names of units are words of the language

A unit is called by a word that programs can write. Names have digits where words have none, and
words have capitals where names have none; without either, names and words are the same texts.

- `IsWord`: a text that is one identifier or one keyword by itself.
- `UnitName.IsName.isWord`: a name without a digit is a word.
- `UnitName.isName_of_isWord`: a word without a capital is a name.
- `names_are_words`: both together, and what becomes of the trailing underscore.
- `letters_beyond_reach`: a name that is too long for a word.
-/

namespace Lexis

/-- The text is a word of the language: scanned by itself it is one identifier or one keyword. -/
def IsWord (text : List Char) : Prop :=
  IsTokenOf .identifier text ∨ ∃ keyword, IsTokenOf (.keyword keyword) text

variable {text : List Char}

/-- A keyword has a few letters, so all of them are within reach. -/
theorem isTokenOf_keyword_iff {keyword : Keyword} :
    IsTokenOf (.keyword keyword) text ↔ text = keyword.text.toList := by
  refine isTokenOf_iff.trans (and_iff_left_of_imp ?_)
  rintro rfl
  exact keyword.length_text_le.trans (by decide)

theorem isWord_iff : IsWord text ↔ text.length ≤ SourceText.maxLength ∧
    (IsIdentifier text ∨ ∃ keyword : Keyword, text = keyword.text.toList) := by
  have hkeyword (keyword : Keyword) : IsTokenOf (.keyword keyword) text ↔
      text.length ≤ SourceText.maxLength ∧ text = keyword.text.toList :=
    isTokenOf_iff.trans And.comm
  rw [IsWord, isTokenOf_iff, exists_congr hkeyword, exists_and_left, and_or_left]
  exact or_congr_left And.comm

namespace UnitName

/-- An escaped keyword is an identifier, as it is for the scanner. -/
theorem IsEscaped.isTokenOf (h : IsEscaped text) : IsTokenOf .identifier text := by
  refine isTokenOf_iff.2 ⟨.inr (.inr h), ?_⟩
  obtain ⟨keyword, rfl⟩ := h
  have hlength : keyword.text.toList.length ≤ Keyword.maxLength := keyword.length_text_le
  rw [List.length_append, List.length_singleton]
  exact (Nat.succ_le_succ hlength).trans (by decide)

/-- A name without a digit is a word: its letters are a keyword, or else they are an identifier. -/
theorem IsName.isWord (h : IsName text) (hdigit : ∀ c ∈ text, c.isDigit = false)
    (hlength : text.length ≤ SourceText.maxLength) : IsWord text := by
  rcases h with hescaped | ⟨initial, rest, rfl, hinitial, hrest⟩
  · exact .inl hescaped.isTokenOf
  · refine isWord_iff.2 ⟨hlength, ?_⟩
    have hletters : ∀ c ∈ rest, c.isAlpha = true := by
      intro c hc
      rcases hrest c hc with hlower | hdig
      · exact Text.isAlpha_of_isLower hlower
      · rw [hdigit c (List.mem_cons_of_mem initial hc)] at hdig
        cases hdig
    cases hof : Keyword.ofText? (initial :: rest) with
    | none =>
      exact .inl (Kind.isIdentifier_of_letters (Text.isAlpha_of_isLower hinitial) hletters hof)
    | some keyword => exact .inr ⟨keyword, Keyword.ofText?_eq_some_iff.1 hof⟩

/-- Letters that begin with a small one and have no capital are a plain name. -/
theorem isPlain_of_letters {initial : Char} {rest : List Char} (hinitial : initial.isLower = true)
    (hrest : ∀ c ∈ rest, c.isAlpha = true) (hupper : ∀ c ∈ rest, c.isUpper = false) :
    IsPlain (initial :: rest) := by
  refine ⟨initial, rest, rfl, hinitial, fun c hc => .inl ?_⟩
  refine (Text.isAlpha_iff.1 (hrest c hc)).resolve_left ?_
  rw [hupper c hc]
  decide

/-- A word without a capital is a name. -/
theorem isName_of_isWord (h : IsWord text) (hupper : ∀ c ∈ text, c.isUpper = false) :
    IsName text := by
  rcases (isWord_iff.1 h).2 with
    (⟨c, rest, rfl, hc, -⟩ | ⟨⟨c, rest, rfl, hc, hrest⟩, -⟩ | hescaped) | ⟨keyword, rfl⟩
  · rw [hupper c List.mem_cons_self] at hc
    cases hc
  · exact .inr (isPlain_of_letters hc hrest fun d hd => hupper d (List.mem_cons_of_mem c hd))
  · exact .inl hescaped
  · obtain ⟨c, rest, hk, -⟩ := keyword.exists_cons
    have hlower := keyword.isLower_of_mem
    have halpha := keyword.isAlpha_of_mem
    rw [hk] at hupper hlower halpha ⊢
    exact .inr (isPlain_of_letters (hlower c List.mem_cons_self)
      (fun d hd => halpha d (List.mem_cons_of_mem c hd))
      fun d hd => hupper d (List.mem_cons_of_mem c hd))

end UnitName

/-- **Names of units are words of the language.** A text without digits and capitals that is within
reach is a name exactly if, scanned by itself, it is one identifier or one keyword and nothing else.
A name that ends with an underscore is one identifier with it, and one keyword without it. -/
theorem names_are_words :
    (∀ text : List Char, (∀ c ∈ text, c.isDigit = false ∧ c.isUpper = false) →
      (IsWord text ↔ text.length ≤ SourceText.maxLength ∧
        ∃ name, UnitName.ofText text = .ok name)) ∧
    ∀ name : UnitName, name.text.getLast? = some '_' →
      IsTokenOf .identifier name.text ∧
        ∃ keyword, IsTokenOf (.keyword keyword) name.text.dropLast := by
  constructor
  · intro text htext
    rw [UnitName.exists_ofText_eq_ok_iff]
    constructor
    · intro hword
      exact ⟨(isWord_iff.1 hword).1, UnitName.isName_of_isWord hword fun c hc => (htext c hc).2⟩
    · rintro ⟨hlength, hname⟩
      exact hname.isWord (fun c hc => (htext c hc).1) hlength
  · intro name hends
    rcases name.isName with hescaped | hplain
    · refine ⟨hescaped.isTokenOf, ?_⟩
      obtain ⟨keyword, htext⟩ := hescaped
      rw [htext, List.dropLast_concat]
      exact ⟨keyword, isTokenOf_keyword_iff.2 rfl⟩
    · exact absurd hends hplain.getLast?_ne

/-- Two underscores are one too many for the scanner, and so they are for a name. -/
theorem names_are_words_two_underscores :
    (∀ c ∈ ['i', 'f', '_', '_'], c.isDigit = false ∧ c.isUpper = false) ∧
      ¬IsWord ['i', 'f', '_', '_'] ∧ IsTokenOf .identifier ['i', 'f', '_'] := by
  have hclasses : ∀ c ∈ ['i', 'f', '_', '_'], c.isDigit = false ∧ c.isUpper = false := by
    intro c hc
    simp only [List.mem_cons, List.not_mem_nil, or_false] at hc
    obtain rfl | rfl | rfl | rfl := hc <;> decide
  refine ⟨hclasses, fun hword => ?_, ?_⟩
  · obtain ⟨-, name, hname⟩ := (names_are_words.1 _ hclasses).1 hword
    have hfault : UnitName.ofText ['i', 'f', '_', '_'] =
      .error (.notAnEscapedKeyword ['i', 'f', '_', '_']) := rfl
    rw [hfault] at hname
    cases hname
  · exact (names_are_words.2 ⟨['i', 'f', '_'], by decide⟩ rfl).1

/-! ## Letters out of reach -/

theorem isName_letters (n : Nat) : UnitName.IsName (List.replicate (n + 1) 'a') := by
  refine .inr ⟨'a', List.replicate n 'a', rfl, rfl, fun c hc => .inl ?_⟩
  rw [List.eq_of_mem_replicate hc]
  rfl

/-- One letter more than a word of the machine counts: a name without digits and capitals, and no
word of the language. -/
theorem letters_beyond_reach :
    (∀ c ∈ List.replicate (4294967295 + 1) 'a', c.isDigit = false ∧ c.isUpper = false) ∧
      (∃ name, UnitName.ofText (List.replicate (4294967295 + 1) 'a') = .ok name) ∧
      ¬IsWord (List.replicate (4294967295 + 1) 'a') := by
  refine ⟨fun c hc => ?_, UnitName.exists_ofText_eq_ok_iff.2 (isName_letters _), fun hword => ?_⟩
  · rw [List.eq_of_mem_replicate hc]
    decide
  · have hlength := (isWord_iff.1 hword).1
    rw [List.length_replicate] at hlength
    exact absurd hlength (by decide)

end Lexis
