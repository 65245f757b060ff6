import Lexis.Literal.Basic
import Lexis.Proofs.Literal.Decimal
import Lexis.Proofs.Literal.Unescape
import Lexis.Proofs.Scan.Lexemes

/-!
# The values of scanned literals

Whether a literal is well formed is settled by scanning. When its value is asked for, the text is
decoded from the start, and what scanning has found is found again.

- `Lexeme.items`: the items that scanning takes in for a literal.
- `Literal.unescapeBody_cases`: decoding gives what the items denote, or stops at the first that
  denotes nothing.
- `Lexeme.StandsIn.value_quoted`: so it is with the value of a character or string literal.
- `Lexeme.StandsIn.value_ne_malformed`: no text that was scanned is malformed.
- `literal_values`: all of it together, for each form of literal.
-/

namespace Lexis

open Item (Denotes NoCodepoint FirstInvalid AllFit textOf)

/-- The items that scanning takes in for a literal, read off the source text behind the literal's
opening delimiter: one for a character literal, and all up to the closing quote for a string. -/
def Lexeme.items (source : SourceText) (lexeme : Lexeme) : List Item :=
  let rest := source.chars.drop (lexeme.span.first.offset + 1)
  match lexeme.kind with
  | .quoted .character =>
    match Item.read rest with
    | .ok (item, _) => [item]
    | .error _ => []
  | .quoted .string => (Piece.stringItems rest).1
  | _ => []

/-! ## Between the delimiters -/

namespace Literal

variable {items : List Item} {close : Char}

theorem body?_append (delimiter : Char) (body : List Char) :
    body? delimiter (delimiter :: (body ++ [delimiter])) = some body := by
  have hlast : (body ++ [delimiter]).getLast? = some delimiter := List.getLast?_concat
  rw [body?, if_pos ⟨rfl, hlast⟩, List.dropLast_concat]

/-- **Decoding gives the codepoints that the items denote**, or stops at the first item that denotes
none. -/
theorem unescapeBody_cases (form : Quoted) (h : AllFit close items [form.delimiter]) :
    (∃ chars, List.Forall₂ Denotes items chars ∧
      unescapeBody form (form.delimiter :: (textOf items ++ [form.delimiter])) = .ok chars) ∨
    ∃ digits, FirstInvalid items digits ∧
      unescapeBody form (form.delimiter :: (textOf items ++ [form.delimiter])) =
        .error (.invalidCodepoint digits) := by
  rcases Item.denotes_or_firstInvalid items with ⟨chars, hchars⟩ | ⟨digits, hdigits⟩
  · refine .inl ⟨chars, hchars, ?_⟩
    rw [unescapeBody, body?_append]
    simp only [unescape_of_denotes h.to_nil hchars]
  · refine .inr ⟨digits, hdigits, ?_⟩
    rw [unescapeBody, body?_append]
    simp only [unescape_of_firstInvalid h.to_nil hdigits]

/-- A result that goes by the items is an error exactly where some item denotes no codepoint. The
first such item decides on the error, and the text is never malformed. -/
theorem error_iff_of_cases {β : Type} {result : Except LiteralError β}
    (h : (∃ chars, List.Forall₂ Denotes items chars ∧ ∃ value, result = .ok value) ∨
      ∃ digits, FirstInvalid items digits ∧ result = .error (.invalidCodepoint digits)) :
    (∀ kind text, result ≠ .error (.malformed kind text)) ∧
    ((∃ error, result = .error error) ↔ ∃ digits, .numbered digits ∈ items ∧ NoCodepoint digits) ∧
    (∀ digits, result = .error (.invalidCodepoint digits) ↔ FirstInvalid items digits) := by
  rcases h with ⟨chars, hchars, value, rfl⟩ | ⟨digits, hdigits, rfl⟩
  · -- where every item denotes a codepoint none of them is invalid
    refine ⟨fun kind text h => absurd h (by simp), ⟨?_, ?_⟩, fun digits => ⟨?_, fun h => ?_⟩⟩
    · rintro ⟨error, herror⟩
      exact absurd herror (by simp)
    · rintro ⟨digits, hnumbered, hdigits⟩
      exact absurd hdigits (Item.not_noCodepoint_of_mem hchars hnumbered)
    · intro herror
      exact absurd herror (by simp)
    · exact absurd h.mem.2 (Item.not_noCodepoint_of_mem hchars h.mem.1)
  · refine ⟨fun kind text h => absurd h (by simp), ⟨fun _ => ⟨digits, hdigits.mem⟩,
      fun _ => ⟨_, rfl⟩⟩, fun other => ⟨fun herror => ?_, fun hother => ?_⟩⟩
    · rw [← LiteralError.invalidCodepoint.inj (Except.error.inj herror)]
      exact hdigits
    · rw [hdigits.unique hother]

end Literal

/-! ## Lexemes -/

namespace Lexeme

variable {source : SourceText} {lexeme : Lexeme}

/-- Behind its first codepoint the source goes on with the rest of a lexeme's text. -/
theorem StandsIn.exists_drop_eq (h : lexeme.StandsIn source) {c : Char} {text : List Char}
    (htext : lexeme.text = c :: text) :
    ∃ rest, source.chars.drop (lexeme.span.first.offset + 1) = text ++ rest := by
  obtain ⟨rest, hrest⟩ := (Piece.means_of_read? h.read?_eq).2.isPrefix
  refine ⟨rest, ?_⟩
  rw [← List.drop_drop, ← hrest, htext]
  rfl

/-- A character literal is the one item that scanning takes in, between two primes. -/
theorem StandsIn.exists_item (h : lexeme.StandsIn source)
    (hkind : lexeme.kind = .quoted .character) :
    ∃ item : Item, lexeme.items source = [item] ∧ item.Fits '\'' ['\''] ∧
      lexeme.text = '\'' :: (item.text ++ ['\'']) := by
  obtain ⟨item, hfits, htext⟩ : (Kind.quoted .character).Language lexeme.text :=
    hkind ▸ (Piece.means_of_read? h.read?_eq).1
  obtain ⟨rest, hrest⟩ := h.exists_drop_eq htext
  have hread : Item.read (item.text ++ '\'' :: rest) = .ok (item, '\'' :: rest) :=
    Item.read_of_fits (hfits.congr rfl)
  rw [List.append_assoc, List.singleton_append] at hrest
  refine ⟨item, ?_, hfits, htext⟩
  simp only [items, hkind, hrest, hread]

/-- A string literal is the items that scanning takes in, between two quotes. -/
theorem StandsIn.items_of_string (h : lexeme.StandsIn source)
    (hkind : lexeme.kind = .quoted .string) :
    AllFit '"' (lexeme.items source) ['"'] ∧
      lexeme.text = '"' :: (textOf (lexeme.items source) ++ ['"']) := by
  obtain ⟨items, hfit, htext⟩ : (Kind.quoted .string).Language lexeme.text :=
    hkind ▸ (Piece.means_of_read? h.read?_eq).1
  obtain ⟨rest, hrest⟩ := h.exists_drop_eq htext
  have hfit' : AllFit '"' items ('"' :: rest) := hfit.congr rfl
  have hread := Piece.stringItems_append hfit'
  rw [Piece.stringItems_of_quote, List.append_nil] at hread
  rw [List.append_assoc, List.singleton_append] at hrest
  have hitems : lexeme.items source = items := by
    simp only [Lexeme.items, hkind, hrest, hread]
  rw [hitems]
  exact ⟨hfit, htext⟩

/-- The value of a character literal is the codepoint that its item denotes. -/
theorem StandsIn.value_character (h : lexeme.StandsIn source)
    (hkind : lexeme.kind = .quoted .character) :
    (∃ item c, lexeme.items source = [item] ∧ item.Denotes c ∧
      lexeme.value = .ok (some (.character c))) ∨
    ∃ digits, FirstInvalid (lexeme.items source) digits ∧
      lexeme.value = .error (.invalidCodepoint digits) := by
  obtain ⟨item, hitems, hfits, htext⟩ := h.exists_item hkind
  have hfit : AllFit '\'' [item] [Quoted.character.delimiter] := ⟨hfits, trivial⟩
  rw [hitems, value, hkind, Literal.value, Literal.character, htext]
  rw [show item.text = textOf [item] from (List.append_nil item.text).symm]
  rcases Literal.unescapeBody_cases .character hfit with
    ⟨chars, hchars, hbody⟩ | ⟨digits, hdigits, hbody⟩
  · cases hchars with
    | cons hc hnil =>
      cases hnil
      exact .inl ⟨item, _, rfl, hc, by
        rw [show '\'' = Quoted.character.delimiter from rfl, hbody]; rfl⟩
  · exact .inr ⟨digits, hdigits, by
      rw [show '\'' = Quoted.character.delimiter from rfl, hbody]; rfl⟩

/-- The value of a string literal is the codepoints that its items denote. -/
theorem StandsIn.value_string (h : lexeme.StandsIn source)
    (hkind : lexeme.kind = .quoted .string) :
    (∃ chars, List.Forall₂ Denotes (lexeme.items source) chars ∧
      lexeme.value = .ok (some (.string chars))) ∨
    ∃ digits, FirstInvalid (lexeme.items source) digits ∧
      lexeme.value = .error (.invalidCodepoint digits) := by
  obtain ⟨hfit, htext⟩ := h.items_of_string hkind
  rw [value, hkind, Literal.value, Literal.string, htext]
  rcases Literal.unescapeBody_cases .string hfit with
    ⟨chars, hchars, hbody⟩ | ⟨digits, hdigits, hbody⟩
  · exact .inl ⟨chars, hchars, by rw [show '"' = Quoted.string.delimiter from rfl, hbody]; rfl⟩
  · exact .inr ⟨digits, hdigits, by rw [show '"' = Quoted.string.delimiter from rfl, hbody]; rfl⟩

/-- The value of a raw string literal is its text without the delimiters. -/
theorem StandsIn.value_rawString (h : lexeme.StandsIn source)
    (hkind : lexeme.kind = .quoted .rawString) :
    lexeme.value = .ok (some (.rawString (lexeme.text.drop 1).dropLast)) := by
  obtain ⟨body, -, htext⟩ : (Kind.quoted .rawString).Language lexeme.text :=
    hkind ▸ (Piece.means_of_read? h.read?_eq).1
  rw [value, hkind, Literal.value, Literal.rawString, htext]
  rw [show '\x60' = Quoted.rawString.delimiter from rfl, Literal.body?_append,
    List.drop_one, List.tail_cons, List.dropLast_concat]
  rfl

/-- The value of a decimal literal is the digits that its text writes. -/
theorem StandsIn.value_decimal (h : lexeme.StandsIn source) (hkind : lexeme.kind = .decimal) :
    ∃ decimal, Decimal.Writes lexeme.text decimal ∧
      lexeme.value = .ok (some (.decimal decimal)) := by
  have hdecimal : IsDecimal lexeme.text :=
    (hkind ▸ (Piece.means_of_read? h.read?_eq).1 : Kind.decimal.Language lexeme.text)
  obtain ⟨decimal, hof⟩ := Decimal.exists_ofText?_of_isDecimal hdecimal
  refine ⟨decimal, Decimal.ofText?_eq_some_iff.1 hof, ?_⟩
  rw [value, hkind, Literal.value, Literal.decimal, hof]
  rfl

/-- The two ways in which decoding may end for a character or string literal. -/
theorem StandsIn.value_quoted (h : lexeme.StandsIn source) {form : Quoted}
    (hform : form ≠ .rawString) (hkind : lexeme.kind = .quoted form) :
    (∃ chars, List.Forall₂ Denotes (lexeme.items source) chars ∧
      ∃ value, lexeme.value = .ok value) ∨
    ∃ digits, FirstInvalid (lexeme.items source) digits ∧
      lexeme.value = .error (.invalidCodepoint digits) := by
  cases form with
  | character =>
    refine (h.value_character hkind).imp_left ?_
    rintro ⟨item, c, hitems, hc, hvalue⟩
    exact ⟨[c], hitems ▸ .cons hc .nil, _, hvalue⟩
  | string =>
    refine (h.value_string hkind).imp_left ?_
    rintro ⟨chars, hchars, hvalue⟩
    exact ⟨chars, hchars, _, hvalue⟩
  | rawString => exact absurd rfl hform

/-- A lexeme that is no literal has no value. -/
theorem value_of_not_isLiteral (h : lexeme.kind.isLiteral = false) : lexeme.value = .ok none := by
  rw [value]
  generalize lexeme.kind = kind at h ⊢
  cases kind with
  | quoted form => exact absurd h (by simp [Kind.isLiteral])
  | decimal => exact absurd h (by simp [Kind.isLiteral])
  | _ => rfl

/-- The text of a lexeme is not malformed, whatever its kind. -/
theorem StandsIn.value_ne_malformed (h : lexeme.StandsIn source) (kind : Kind)
    (text : List Char) : lexeme.value ≠ .error (.malformed kind text) := by
  intro hvalue
  by_cases hliteral : lexeme.kind.isLiteral = false
  · rw [value_of_not_isLiteral hliteral] at hvalue
    exact absurd hvalue (by simp)
  · cases hkind : lexeme.kind with
    | decimal =>
      obtain ⟨decimal, -, hdecimal⟩ := h.value_decimal hkind
      rw [hdecimal] at hvalue
      exact absurd hvalue (by simp)
    | quoted form =>
      by_cases hform : form = .rawString
      · rw [h.value_rawString (hform ▸ hkind)] at hvalue
        exact absurd hvalue (by simp)
      · exact (Literal.error_iff_of_cases (h.value_quoted hform hkind)).1 kind text hvalue
    | _ => exact hliteral (by rw [hkind]; rfl)

end Lexeme

/-- **Decoding agrees with scanning.** Whether or not a scan fails in the end, the text of no lexeme
is malformed. Decimals and raw strings always have a value: that of a decimal is the digits that its
text writes, and that of a raw string is its text without the first and last codepoint. A character
or string literal is the items that scanning took in, between its delimiters. It has no value
exactly if an escape among them denotes a surrogate or a number above `10ffff`, and the first such
escape is the one reported, with its digits as written. Otherwise its value is what the items
denote, in order and one codepoint for each, and there is one item in a character literal. -/
theorem literal_values (source : SourceText) (lexeme : Lexeme)
    (h : lexeme ∈ source.scan.lexemes) :
    (∀ kind text, lexeme.value ≠ .error (.malformed kind text)) ∧
    (lexeme.kind = .decimal → ∃ decimal, Decimal.Writes lexeme.text decimal ∧
      lexeme.value = .ok (some (.decimal decimal))) ∧
    (lexeme.kind = .quoted .rawString →
      lexeme.value = .ok (some (.rawString (lexeme.text.drop 1).dropLast))) ∧
    (∀ form, form ≠ .rawString → lexeme.kind = .quoted form →
      lexeme.text = form.delimiter :: (textOf (lexeme.items source) ++ [form.delimiter]) ∧
      ((∃ error, lexeme.value = .error error) ↔
        ∃ digits, .numbered digits ∈ lexeme.items source ∧ NoCodepoint digits) ∧
      (∀ digits, lexeme.value = .error (.invalidCodepoint digits) ↔
        FirstInvalid (lexeme.items source) digits)) ∧
    (lexeme.kind = .quoted .character → ∃ item, lexeme.items source = [item] ∧
      ∀ value, lexeme.value = .ok value → ∃ c, item.Denotes c ∧ value = some (.character c)) ∧
    (lexeme.kind = .quoted .string → ∀ value, lexeme.value = .ok value →
      ∃ chars, List.Forall₂ Denotes (lexeme.items source) chars ∧
        value = some (.string chars)) := by
  have hs := SourceText.standsIn_of_mem_scan h
  refine ⟨hs.value_ne_malformed, hs.value_decimal, hs.value_rawString, ?_, ?_, ?_⟩
  · -- a character or string literal: its text, and when it has no value
    intro form hform hkind
    obtain ⟨-, herror, hdigits⟩ := Literal.error_iff_of_cases (hs.value_quoted hform hkind)
    refine ⟨?_, herror, hdigits⟩
    cases form with
    | character =>
      obtain ⟨item, hitems, -, htext⟩ := hs.exists_item hkind
      rw [htext, hitems, show textOf [item] = item.text from List.append_nil item.text]
      rfl
    | string => exact (hs.items_of_string hkind).2
    | rawString => exact absurd rfl hform
  · -- the value of a character literal, which has one item
    intro hkind
    obtain ⟨item, hitems, -, -⟩ := hs.exists_item hkind
    refine ⟨item, hitems, fun value hvalue => ?_⟩
    rcases hs.value_character hkind with ⟨other, c, hother, hc, hok⟩ | ⟨digits, -, herror⟩
    · obtain rfl : item = other := (List.cons.inj (hitems.symm.trans hother)).1
      exact ⟨c, hc, Except.ok.inj (hvalue.symm.trans hok)⟩
    · rw [herror] at hvalue
      exact absurd hvalue (by simp)
  · -- the value of a string literal
    intro hkind value hvalue
    rcases hs.value_string hkind with ⟨chars, hchars, hok⟩ | ⟨digits, -, herror⟩
    · exact ⟨chars, hchars, Except.ok.inj (hvalue.symm.trans hok)⟩
    · rw [herror] at hvalue
      exact absurd hvalue (by simp)

/-- A string with two escapes that denote no codepoint, in a text whose scan fails later: the first
of the two is reported. -/
theorem literal_values_two_invalid :
    Literal.value (.quoted .string)
      ['"', '\\', '"', '\\', 'd', '8', '0', '0', '\\', '1', '1', '0', '0', '0', '0', '"'] =
        .error (.invalidCodepoint ['d', '8', '0', '0']) := by
  have h := literal_values
    ⟨['"', '\\', '"', '\\', 'd', '8', '0', '0', '\\', '1', '1', '0', '0', '0', '0', '"', '\'']⟩
    ⟨.quoted .string,
      ['"', '\\', '"', '\\', 'd', '8', '0', '0', '\\', '1', '1', '0', '0', '0', '0', '"'],
      ⟨⟨0, 1, 1⟩, ⟨16, 1, 17⟩⟩⟩ (by decide +kernel)
  refine ((h.2.2.2.1 .string (by decide) rfl).2.2 _).2 ?_
  refine ⟨[.escaped '"'], [.numbered ['1', '1', '0', '0', '0', '0']], by decide +kernel,
    by decide, fun other hother => ?_⟩
  exact absurd hother (by simp)

end Lexis
