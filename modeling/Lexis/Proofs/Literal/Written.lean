import Mathlib.Data.List.Forall2
import Lexis.Proofs.Literal.Value
import Lexis.Proofs.Scan.Layout
import Lexis.Proofs.Text.Hex

/-!
# Every value has a literal

Writing is the way back from decoding. Items are written one after another, and only one thing can
go wrong between them: a number takes in all digits that follow it, so no codepoint that is a digit
may stand for itself there.

- `Item.Writable`: an item denotes a codepoint and may be written in a literal.
- `Item.Apart`: an item does not go on with the digits of the item before it.
- `Item.allFit_of_writable`: items that are apart may all stand where they are written.
- `IsLiteralOf`: a text is a literal by itself, and has the value.
- `Item.ofNumber`: a codepoint written by its number, which every codepoint can be.
- `values_have_literals`: all of it together.
- `raw_string_beyond_reach`: a text that is too long for a literal.
-/

namespace Lexis

open Item (Denotes NoCodepoint AllFit textOf)

namespace Item

/-! ## Items to be written -/

/-- The item denotes a codepoint, and may be written in a literal that `close` closes: a codepoint
that stands for itself is no newline, backslash or closing delimiter, a backslash takes one of four
codepoints, or one to eight hexadecimal digits that write a codepoint's number. -/
def Writable (close : Char) : Item → Prop
  | verbatim c => c ≠ '\n' ∧ c ≠ '\\' ∧ c ≠ close
  | escaped c => c = '\\' ∨ c = '\'' ∨ c = '"' ∨ c = '\x60'
  | numbered digits => (∀ d ∈ digits, Text.isHexDigit d = true) ∧ 1 ≤ digits.length ∧
      digits.length ≤ 8 ∧ ¬NoCodepoint digits

instance (close : Char) (item : Item) : Decidable (item.Writable close) :=
  match item with
  | verbatim _ => inferInstanceAs (Decidable (_ ∧ _))
  | escaped _ => inferInstanceAs (Decidable (_ ∨ _))
  | numbered digits =>
    -- the digits are gone through, not all codepoints
    haveI : Decidable (∀ d ∈ digits, Text.isHexDigit d = true) := List.decidableBAll _ digits
    inferInstanceAs (Decidable (_ ∧ _))

/-- The second item does not go on with the digits of the first: where a number comes first, no
hexadecimal digit that stands for itself comes next. -/
def Apart : Item → Item → Prop
  | numbered _, verbatim c => Text.isHexDigit c = false
  | _, _ => True

variable {close : Char} {item next : Item} {items : List Item} {rest : List Char}

/-- An item denotes one codepoint at most. -/
theorem rightUnique_denotes : Relator.RightUnique Denotes := by
  intro item c d h h'
  cases item with
  | verbatim e => exact h.trans h'.symm
  | escaped e => exact h.trans h'.symm
  | numbered digits =>
    have hnumber : c.toNat = d.toNat := h.trans h'.symm
    exact Char.toNat_inj.1 hnumber

/-- Whatever can be written denotes a codepoint. -/
theorem Writable.exists_denotes (h : item.Writable close) : ∃ c, item.Denotes c := by
  rcases item.exists_denotes_or with hc | ⟨digits, rfl, hno⟩
  · exact hc
  · exact absurd hno h.2.2.2

theorem exists_forall₂_denotes (h : ∀ item ∈ items, item.Writable close) :
    ∃ chars, List.Forall₂ Denotes items chars := by
  induction items with
  | nil => exact ⟨[], .nil⟩
  | cons item items ih =>
    obtain ⟨hitem, hitems⟩ := List.forall_mem_cons.1 h
    obtain ⟨c, hc⟩ := hitem.exists_denotes
    obtain ⟨chars, hchars⟩ := ih hitems
    exact ⟨c :: chars, .cons hc hchars⟩

/-- An item may stand wherever no digit goes on with it. -/
theorem Writable.fits (h : item.Writable close)
    (hrest : ∀ digits, item = numbered digits →
      ∀ d, rest.head? = some d → Text.isHexDigit d = false) : item.Fits close rest := by
  cases item with
  | verbatim c => exact h
  | escaped c => exact h
  | numbered digits => exact ⟨h.1, h.2.1, h.2.2.1, hrest digits rfl⟩

/-- An item that may be written takes a few codepoints. -/
theorem Writable.length_text_le (h : item.Writable close) : item.text.length ≤ 9 := by
  cases item with
  | verbatim c => exact Nat.succ_le_succ (Nat.zero_le 8)
  | escaped c => exact Nat.le_add_right 2 7
  | numbered digits =>
    have hdigits : digits.length ≤ 8 := h.2.2.1
    exact Nat.succ_le_succ hdigits

/-- An item that is apart from a number does not begin with a digit: the other items begin with a
backslash. -/
theorem Apart.not_isHexDigit {digits : List Char} (h : Apart (numbered digits) next) {d : Char}
    (hd : (next.text ++ rest).head? = some d) : Text.isHexDigit d = false := by
  cases next with
  | verbatim c =>
    obtain rfl := Option.some.inj hd
    exact h
  | escaped c =>
    obtain rfl := Option.some.inj hd
    decide
  | numbered digits =>
    obtain rfl := Option.some.inj hd
    decide

/-- **Items that are apart may all stand where they are written.** -/
theorem allFit_of_writable (h : ∀ item ∈ items, item.Writable close) (hapart : items.IsChain Apart)
    (hclose : Text.isHexDigit close = false) : AllFit close items [close] := by
  induction items with
  | nil => trivial
  | cons item items ih =>
    obtain ⟨hitem, hitems⟩ := List.forall_mem_cons.1 h
    cases items with
    | nil =>
      refine ⟨hitem.fits fun _ _ d hd => ?_, trivial⟩
      obtain rfl := Option.some.inj hd
      exact hclose
    | cons next items =>
      obtain ⟨hnext, hapart⟩ := List.isChain_cons_cons.1 hapart
      refine ⟨hitem.fits ?_, ih hitems hapart⟩
      rintro digits rfl d hd
      rw [textOf_cons, List.append_assoc] at hd
      exact hnext.not_isHexDigit hd

/-! ## Codepoints by their numbers -/

/-- A codepoint written by its number, in eight digits. -/
def ofNumber (c : Char) : Item := numbered (Text.hexDigitsOf 8 c.toNat)

/-- The eight digits write the codepoint's number: no codepoint needs more. -/
theorem denotes_ofNumber (c : Char) : (ofNumber c).Denotes c := by
  have hvalid : c.toNat.isValidChar := c.valid
  have hlt : c.toNat < 16 ^ 8 := by
    rw [Nat.isValidChar] at hvalid
    omega
  show c.toNat = _
  rw [Text.hexValue_hexDigitsOf, Nat.mod_eq_of_lt hlt]

theorem writable_ofNumber (close c : Char) : (ofNumber c).Writable close := by
  have hlen := Text.length_hexDigitsOf 8 c.toNat
  refine ⟨fun d hd => Text.isHexDigit_of_mem_hexDigitsOf hd, ?_, ?_,
    (denotes_ofNumber c).not_noCodepoint⟩
  · rw [hlen]
    decide
  · rw [hlen]

/-- Written by their numbers, codepoints take nine times their room. -/
theorem length_textOf_ofNumber (text : List Char) :
    (textOf (text.map ofNumber)).length = 9 * text.length := by
  induction text with
  | nil => rfl
  | cons c text ih =>
    have hlen : (ofNumber c).text.length = 9 :=
      congrArg (· + 1) (Text.length_hexDigitsOf 8 c.toNat)
    rw [List.map_cons, textOf_cons, List.length_append, hlen, ih, List.length_cons]
    omega

/-- Numbers are apart: each of them begins with a backslash. -/
theorem isChain_ofNumber (text : List Char) : (text.map ofNumber).IsChain Apart := by
  induction text with
  | nil => exact .nil
  | cons c text ih =>
    cases text with
    | nil => exact .singleton _
    | cons d text => exact .cons_cons trivial ih

end Item

/-! ## Literals by themselves -/

/-- The text is a literal of the form, with the value: scanned by itself it has one lexeme, of that
form and over all of the text, and no error, and the lexeme has the value. -/
def IsLiteralOf (form : Quoted) (text : List Char) (value : Literal.Value) : Prop :=
  ∃ lexeme : Lexeme, (SourceText.mk text).scan = ⟨[lexeme], none⟩ ∧
    lexeme.kind = .quoted form ∧ lexeme.span.first.offset = 0 ∧
    lexeme.span.last.offset = text.length ∧ lexeme.value = .ok (some value)

variable {form : Quoted} {items : List Item} {text chars : List Char} {value : Literal.Value}

/-- A text in the language of its form that is within reach is a literal, and its value is decoded
from all of it. -/
theorem isLiteralOf_of_language (h : (Kind.quoted form).Language text)
    (hlength : text.length ≤ SourceText.maxLength)
    (hvalue : Literal.value (.quoted form) text = .ok (some value)) :
    IsLiteralOf form text value := by
  obtain ⟨lexeme, hscan, hkind, hfirst, hlast⟩ := isTokenOf_iff.2 ⟨h, hlength⟩
  have hmem : lexeme ∈ (SourceText.mk text).scan.lexemes := by
    rw [hscan]
    exact List.mem_singleton_self lexeme
  have hcontents := (SourceText.standsIn_of_mem_scan hmem).contents_eq
  have htext : lexeme.text = text := by
    rw [← hcontents, SourceText.contents, hfirst, hlast, SourceText.slice,
      SourceText.chars_mk hlength, List.take_length, List.drop_zero]
  refine ⟨lexeme, hscan, hkind, hfirst, hlast, ?_⟩
  rw [Lexeme.value, hkind, htext, hvalue]

/-- Between their delimiters items are decoded to the codepoints that they denote. -/
theorem Literal.unescapeBody_of_denotes {close : Char} (form : Quoted)
    (h : AllFit close items [form.delimiter]) (hchars : List.Forall₂ Denotes items chars) :
    unescapeBody form (form.delimiter :: (textOf items ++ [form.delimiter])) = .ok chars := by
  rw [unescapeBody, body?_append]
  simp only [unescape_of_denotes h.to_nil hchars]

/-- **Items that are apart are a string literal** of the codepoints that they denote. -/
theorem isLiteralOf_string (h : ∀ item ∈ items, item.Writable '"')
    (hapart : items.IsChain Item.Apart) (hchars : List.Forall₂ Denotes items chars)
    (hlength : ('"' :: (textOf items ++ ['"'])).length ≤ SourceText.maxLength) :
    IsLiteralOf .string ('"' :: (textOf items ++ ['"'])) (.string chars) := by
  have hfit : AllFit '"' items ['"'] := Item.allFit_of_writable h hapart (by decide)
  have hbody : Literal.string ('"' :: (textOf items ++ ['"'])) = .ok chars :=
    Literal.unescapeBody_of_denotes .string hfit hchars
  refine isLiteralOf_of_language ⟨items, hfit, rfl⟩ hlength ?_
  rw [Literal.value, hbody]
  rfl

/-- **An item is a character literal** of the codepoint that it denotes. -/
theorem isLiteralOf_character {item : Item} {c : Char} (h : item.Writable '\'')
    (hc : item.Denotes c) :
    IsLiteralOf .character ('\'' :: (item.text ++ ['\''])) (.character c) := by
  have hfit : AllFit '\'' [item] ['\''] :=
    Item.allFit_of_writable (List.forall_mem_singleton.2 h) (.singleton item) (by decide)
  have hbody : Literal.unescapeBody .character ('\'' :: (textOf [item] ++ ['\''])) = .ok [c] :=
    Literal.unescapeBody_of_denotes .character hfit (.cons hc .nil)
  rw [show textOf [item] = item.text from List.append_nil item.text] at hbody
  have hlength : ('\'' :: (item.text ++ ['\''])).length ≤ SourceText.maxLength := by
    have hitem := h.length_text_le
    rw [List.length_cons, List.length_append, List.length_singleton, SourceText.maxLength]
    omega
  refine isLiteralOf_of_language ⟨item, hfit.1, rfl⟩ hlength ?_
  rw [Literal.value, Literal.character, hbody]
  rfl

/-- **A text without a backtick is a raw string literal** of itself. -/
theorem isLiteralOf_rawString (h : '\x60' ∉ text)
    (hlength : ('\x60' :: (text ++ ['\x60'])).length ≤ SourceText.maxLength) :
    IsLiteralOf .rawString ('\x60' :: (text ++ ['\x60'])) (.rawString text) := by
  have hbody :
      Literal.body? Quoted.rawString.delimiter ('\x60' :: (text ++ ['\x60'])) = some text :=
    Literal.body?_append '\x60' text
  refine isLiteralOf_of_language ⟨text, h, rfl⟩ hlength ?_
  rw [Literal.value, Literal.rawString, hbody]
  rfl

/-- **Every value has a literal** that is within reach, if it is not too long. Items of which each
denotes a codepoint are a string literal between quotes, if no digit that stands for itself follows
a number, and its value is the codepoints that they denote. So is one item between primes a
character literal, and any text without a backtick a raw string literal between backticks. Numbers
of eight digits can be written for any codepoints whatever, so every text is the value of a string
literal. -/
theorem values_have_literals :
    (∀ items : List Item, (∀ item ∈ items, item.Writable '"') → items.IsChain Item.Apart →
      ∃ chars, List.Forall₂ Denotes items chars ∧
        (('"' :: (textOf items ++ ['"'])).length ≤ SourceText.maxLength →
          IsLiteralOf .string ('"' :: (textOf items ++ ['"'])) (.string chars))) ∧
    (∀ item : Item, item.Writable '\'' →
      ∃ c, item.Denotes c ∧
        IsLiteralOf .character ('\'' :: (item.text ++ ['\''])) (.character c)) ∧
    (∀ text : List Char, '\x60' ∉ text → text.length + 2 ≤ SourceText.maxLength →
      IsLiteralOf .rawString ('\x60' :: (text ++ ['\x60'])) (.rawString text)) ∧
    ∀ text : List Char, 9 * text.length + 2 ≤ SourceText.maxLength →
      IsLiteralOf .string ('"' :: (textOf (text.map Item.ofNumber) ++ ['"'])) (.string text) := by
  have hquoted (c : Char) (body : List Char) : (c :: (body ++ [c])).length = body.length + 2 := by
    rw [List.length_cons, List.length_append, List.length_singleton]
  refine ⟨?_, ?_, ?_, ?_⟩
  · intro items hitems hapart
    obtain ⟨chars, hchars⟩ := Item.exists_forall₂_denotes hitems
    exact ⟨chars, hchars, isLiteralOf_string hitems hapart hchars⟩
  · intro item hitem
    obtain ⟨c, hc⟩ := hitem.exists_denotes
    exact ⟨c, hc, isLiteralOf_character hitem hc⟩
  · intro text htext hlength
    exact isLiteralOf_rawString htext ((hquoted _ _).le.trans hlength)
  · -- with eight digits and its backslash every codepoint takes nine
    intro text hlength
    refine isLiteralOf_string ?_ (Item.isChain_ofNumber text) ?_ ?_
    · exact List.forall_mem_map.2 fun c _ => Item.writable_ofNumber '"' c
    · exact List.forall₂_map_left_iff.2 (List.forall₂_same.2 fun c _ => Item.denotes_ofNumber c)
    · rw [hquoted, Item.length_textOf_ofNumber]
      exact hlength

/-- A newline, a quote, a null codepoint and a backslash in one string. The newline's number has one
digit, and what follows it is no digit. -/
theorem values_have_literals_newline :
    IsLiteralOf .string ['"', '\\', 'A', '\\', '"', '\x00', '\\', '\\', '"']
      (.string ['\n', '"', '\x00', '\\']) := by
  obtain ⟨chars, hchars, hliteral⟩ := values_have_literals.1
    [.numbered ['A'], .escaped '"', .verbatim '\x00', .escaped '\\']
    (by decide)
    (.cons_cons trivial (.cons_cons trivial (.cons_cons trivial (.singleton _))))
  have hdenoted : List.Forall₂ Denotes
      [.numbered ['A'], .escaped '"', .verbatim '\x00', .escaped '\\']
      ['\n', '"', '\x00', '\\'] :=
    .cons (by rfl) (.cons rfl (.cons rfl (.cons rfl .nil)))
  have hchars : chars = ['\n', '"', '\x00', '\\'] :=
    List.right_unique_forall₂' Item.rightUnique_denotes hchars hdenoted
  rw [hchars] at hliteral
  exact hliteral (by decide)

/-! ## Literals out of reach -/

/-- A literal ends within reach, and takes up all that is stored. -/
theorem IsLiteralOf.length_le (h : IsLiteralOf form text value) :
    text.length ≤ SourceText.maxLength := by
  obtain ⟨lexeme, hscan, hkind, hfirst, hlast, -⟩ := h
  exact (isTokenOf_iff.1 ⟨lexeme, hscan, hkind, hfirst, hlast⟩).2

/-- A line of letters without a backtick. Between backticks it would be longer than a word counts,
and there is no literal of it. -/
theorem raw_string_beyond_reach :
    '\x60' ∉ '\n' :: List.replicate 4294967294 'a' ∧
      ¬IsLiteralOf .rawString ('\x60' :: ('\n' :: List.replicate 4294967294 'a' ++ ['\x60']))
        (.rawString ('\n' :: List.replicate 4294967294 'a')) := by
  refine ⟨fun hmem => ?_, fun hliteral => ?_⟩
  · rcases List.mem_cons.1 hmem with hnewline | hletter
    · exact absurd hnewline (by decide)
    · exact absurd (List.eq_of_mem_replicate hletter) (by decide)
  · have hlength := hliteral.length_le
    rw [List.length_cons, List.length_append, List.length_cons, List.length_replicate] at hlength
    exact absurd hlength (by decide)

end Lexis
