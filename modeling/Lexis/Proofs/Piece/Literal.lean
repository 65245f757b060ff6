import Lexis.Proofs.Piece.Item

/-!
# How quoted literals are read

For each form of quoted literal: what is read where the literal is closed, what where it is not, and
that there is no other way for the text to go on.

- `Piece.character_of_fits`, `Piece.string_of_allFit`, `Piece.rawString_of_not_mem`: a closed
  literal is a token.
- `Piece.character_of_fault`, `Piece.string_of_fault`: a place without an item is a fault.
- `Piece.character_cases`, `Piece.string_cases`, `Piece.rawString_cases`: how the text after an
  opening delimiter may go on.
-/

namespace Lexis.Piece

open Item (textOf AllFit)

variable {item : Item} {items : List Item} {why : Item.Fault} {s body rest : List Char}

/-! ## Character literals -/

theorem character_of_quote (rest : List Char) :
    character ('\'' :: rest) = fault .emptyCharacterLiteral 0 1 := by
  rw [character]
  exact if_pos rfl

/-- The null codepoint behind a text is not taken for a prime. -/
theorem headD_eq_iff : s.headD '\x00' = '\'' ↔ s.head? = some '\'' := by
  cases s with
  | nil => exact ⟨fun h => absurd h (by decide), fun h => by cases h⟩
  | cons c s => exact Option.some_inj.symm

/-- An item that fits is read, and then the closing delimiter is looked for. -/
theorem character_of_fits (h : item.Fits '\'' rest) :
    character (item.text ++ rest) =
      if rest.head? = some '\'' then
        token (.quoted .character) ('\'' :: (item.text ++ ['\'']))
      else fault (.unterminatedLiteral .character) 0 (1 + item.text.length) := by
  rw [character, if_neg (mt headD_eq_iff.1 (h.head?_ne (by decide) rest)), Item.read_of_fits h]

theorem character_of_fault (hhead : s.head? ≠ some '\'') (h : why.At s) :
    character s = itemFault .character 1 s why := by
  rw [character, if_neg (mt headD_eq_iff.1 hhead), Item.read_eq_error_iff.2 h]

/-- **After an opening prime there is another, or no item, or an item.** -/
theorem character_cases (s : List Char) :
    (∃ rest, s = '\'' :: rest) ∨ (s.head? ≠ some '\'' ∧ ∃ why : Item.Fault, why.At s) ∨
      ∃ (item : Item) (rest : List Char), s = item.text ++ rest ∧ item.Fits '\'' rest := by
  by_cases hprime : s.head? = some '\''
  · exact .inl (List.head?_eq_some_iff.1 hprime)
  · right
    cases hread : Item.read s with
    | error why => exact .inl ⟨hprime, why, Item.read_eq_error_iff.1 hread⟩
    | ok found =>
      obtain ⟨item, rest⟩ := found
      have hs := Item.text_append_of_read hread
      exact .inr ⟨item, rest, hs.symm, Item.fits_of_read hread hprime⟩

/-! ## String literals -/

/-- Items up to a closing quote are a string literal. -/
theorem string_of_allFit (h : AllFit '"' items ('"' :: rest)) :
    string (textOf items ++ '"' :: rest) =
      token (.quoted .string) ('"' :: (textOf items ++ ['"'])) := by
  rw [string, stringItems_append h, stringItems_of_quote, List.append_nil]
  rfl

/-- Items up to a place without one are a fault. -/
theorem string_of_fault (hfit : AllFit '"' items s) (hhead : s.head? ≠ some '"') (h : why.At s) :
    string (textOf items ++ s) = itemFault .string (1 + (textOf items).length) s why := by
  rw [string, stringItems_append hfit, stringItems_of_fault hhead h, List.append_nil]
  rfl

/-- **After an opening quote there are items up to a closing one, or up to a place without an
item.** -/
theorem string_cases (s : List Char) :
    ∃ items rest, s = textOf items ++ rest ∧ AllFit '"' items rest ∧
      ((∃ after, rest = '"' :: after) ∨
        rest.head? ≠ some '"' ∧ ∃ why : Item.Fault, why.At rest) := by
  -- what follows an item is shorter, so the induction is on the length of the text
  generalize hn : s.length = n
  induction n using Nat.strongRecOn generalizing s with
  | ind n ih =>
    by_cases hquote : s.head? = some '"'
    · exact ⟨[], s, rfl, trivial, .inl (List.head?_eq_some_iff.1 hquote)⟩
    · cases hread : Item.read s with
      | error why =>
        exact ⟨[], s, rfl, trivial, .inr ⟨hquote, why, Item.read_eq_error_iff.1 hread⟩⟩
      | ok found =>
        obtain ⟨item, after⟩ := found
        have hlt := Item.length_lt_of_read hread
        obtain ⟨items, rest, rfl, hfit, hend⟩ := ih after.length (hn ▸ hlt) after rfl
        refine ⟨item :: items, rest, ?_, ⟨Item.fits_of_read hread hquote, hfit⟩, hend⟩
        rw [Item.textOf_cons, List.append_assoc]
        exact (Item.text_append_of_read hread).symm

/-! ## Raw string literals -/

/-- Whatever has no backtick up to one is a raw string literal. -/
theorem rawString_of_not_mem (h : '\x60' ∉ body) (rest : List Char) :
    rawString (body ++ '\x60' :: rest) =
      token (.quoted .rawString) ('\x60' :: (body ++ ['\x60'])) := by
  rw [rawString, Text.throughFirst?_singleton_append h]

/-- Without another backtick it is a fault. -/
theorem rawString_of_unclosed (h : '\x60' ∉ s) :
    rawString s = fault (.unterminatedLiteral .rawString) 0 (1 + s.length) := by
  rw [rawString, Text.throughFirst?_singleton_eq_none_iff.2 h]

/-- **After an opening backtick there is another, or none.** -/
theorem rawString_cases (s : List Char) :
    (∃ body rest, s = body ++ '\x60' :: rest ∧ '\x60' ∉ body) ∨ '\x60' ∉ s := by
  by_cases hback : '\x60' ∈ s
  · exact .inl (List.eq_append_cons_of_mem hback)
  · exact .inr hback

end Lexis.Piece
