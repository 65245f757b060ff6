import Lexis.Proofs.Piece.Begins
import Lexis.Proofs.Piece.Decimal
import Lexis.Proofs.Piece.Gap
import Lexis.Proofs.Piece.Literal

/-!
# Malformed constructs

What it is for a text to begin with a construct that has no proper end, said without reading it: for
each cause, the texts it is found in and how far on the error lies.

- `Piece.NextItem`: the places in a quoted literal where an item has to begin.
- `Piece.Unclosed`: a literal without its closing delimiter.
- `Piece.Malformed`: the construct that a text begins with is malformed.
- `Piece.exists_fault_of_malformed`: every malformed construct is read as a fault of its cause, and
  at its place.
-/

namespace Lexis.Piece

open Item (textOf AllFit)

/-- Reading the literal that `s` begins with, item by item, comes to `rest` after `n` codepoints,
and an item has to begin there: right after the opening prime of a character literal, unless
another prime follows, and after any items of a string literal, unless a quote follows. -/
def NextItem (s : List Char) (n : Nat) (rest : List Char) : Quoted → Prop
  | .character => s = '\'' :: rest ∧ n = 1 ∧ rest.head? ≠ some '\''
  | .string => ∃ items, s = '"' :: (textOf items ++ rest) ∧ n = 1 + (textOf items).length ∧
      AllFit '"' items rest ∧ rest.head? ≠ some '"'
  | .rawString => False

/-- The literal that `s` begins with has no closing delimiter: the text ends where an item or the
rest of one should stand, or no prime follows the one item of a character literal, or no backtick
follows an opening one. -/
def Unclosed (s : List Char) (form : Quoted) : Prop :=
  (∃ n rest, NextItem s n rest form ∧ Item.Fault.endOfText.At rest) ∨
  (form = .character ∧ ∃ (item : Item) (rest : List Char),
    s = '\'' :: (item.text ++ rest) ∧ item.Fits '\'' rest ∧ rest.head? ≠ some '\'') ∨
  (form = .rawString ∧ ∃ rest, s = '\x60' :: rest ∧ '\x60' ∉ rest)

/-- The construct that `s` begins with is malformed, and the error lies `place` codepoints on. -/
def Malformed (s : List Char) (place : Nat) : ScanError.Cause → Prop
  | .emptyCharacterLiteral => place = 0 ∧ ∃ rest, s = '\'' :: '\'' :: rest
  | .unterminatedLiteral form => place = 0 ∧ Unclosed s form
  | .bareNewlineInLiteral form => ∃ rest, NextItem s place rest form ∧ Item.Fault.newline.At rest
  | .invalidEscapeDigitCount digits => ∃ form rest,
      NextItem s place rest form ∧ (Item.Fault.digitCount digits).At rest
  | .missingExponentDigit => ∃ mantissa marker rest, s = mantissa ++ marker :: rest ∧
      Text.IsLongest IsMantissa mantissa s ∧ (marker = 'e' ∨ marker = 'E') ∧
      (∀ d, rest.head? = some d → d.isDigit = false) ∧ place = mantissa.length + 1
  | .unterminatedBlockComment => place = 0 ∧
      ∃ body, s = '#' :: '\x7b' :: body ∧ ¬['\x7d', '#'] <:+: body

variable {s rest : List Char} {n place : Nat} {form : Quoted} {why : Item.Fault}

/-! ## Places of errors -/

theorem NextItem.le_length (h : NextItem s n rest form) : n ≤ s.length := by
  cases form with
  | character =>
    obtain ⟨rfl, rfl, -⟩ := h
    rw [List.length_cons]
    omega
  | string =>
    obtain ⟨items, rfl, rfl, -⟩ := h
    rw [List.length_cons, List.length_append]
    omega
  | rawString => exact h.elim

/-- The error lies in the text, or at its end. -/
theorem Malformed.place_le {cause : ScanError.Cause} (h : Malformed s place cause) :
    place ≤ s.length := by
  cases cause with
  | bareNewlineInLiteral form =>
    obtain ⟨rest, hnext, -⟩ := h
    exact hnext.le_length
  | invalidEscapeDigitCount digits =>
    obtain ⟨form, rest, hnext, -⟩ := h
    exact hnext.le_length
  | missingExponentDigit =>
    obtain ⟨mantissa, marker, rest, rfl, -, -, -, rfl⟩ := h
    rw [List.length_append, List.length_cons]
    omega
  | _ =>
    obtain ⟨rfl, -⟩ := h
    exact Nat.zero_le _

/-! ## Items that are missing -/

/-- Where an item has to begin and none does, reading finds the fault. -/
theorem read?_of_nextItem (h : NextItem s n rest form) (hwhy : why.At rest) :
    read? s = some (itemFault form n rest why) := by
  cases form with
  | character =>
    obtain ⟨rfl, rfl, hhead⟩ := h
    rw [read?_of_begins (.character rest), character_of_fault hhead hwhy]
  | string =>
    obtain ⟨items, rfl, rfl, hfit, hhead⟩ := h
    rw [read?_of_begins (.string _), string_of_fault hfit hhead hwhy]
  | rawString => exact h.elim

/-! ## Malformed constructs are faults -/

theorem exists_fault_of_unclosed (h : Unclosed s form) :
    ∃ taken, read? s = some (fault (.unterminatedLiteral form) 0 taken) := by
  rcases h with
    ⟨n, rest, hnext, hend⟩ | ⟨rfl, item, rest, rfl, hfits, hhead⟩ | ⟨rfl, rest, rfl, hback⟩
  · exact ⟨_, read?_of_nextItem hnext hend⟩
  · refine ⟨1 + item.text.length, ?_⟩
    rw [read?_of_begins (.character _), character_of_fits hfits, if_neg hhead]
  · refine ⟨1 + rest.length, ?_⟩
    rw [read?_of_begins (.rawString _), rawString_of_unclosed hback]

/-- A mantissa and a marker without a digit after it are read up to the marker. -/
theorem exists_fault_of_marker {mantissa : List Char} {marker : Char}
    (hm : Text.IsLongest IsMantissa mantissa (mantissa ++ marker :: rest))
    (hmarker : marker = 'e' ∨ marker = 'E')
    (hrest : ∀ d, rest.head? = some d → d.isDigit = false) :
    ∃ taken, read? (mantissa ++ marker :: rest) =
      some (fault .missingExponentDigit (mantissa.length + 1) taken) := by
  obtain ⟨c, t, hct, hc⟩ := hm.mem.exists_cons
  obtain ⟨u, hu⟩ : ∃ u, mantissa ++ marker :: rest = c :: u := by
    rw [hct]
    exact ⟨t ++ marker :: rest, rfl⟩
  refine ⟨mantissa.length + 1, ?_⟩
  -- there is one longest mantissa, so the one that is read ends right before the marker
  have hlongest := Mantissa.isLongest_read hc u
  have hsplit := Mantissa.append_read (c :: u)
  rw [← hu] at hlongest hsplit
  have hread : (Mantissa.read (mantissa ++ marker :: rest)).1 = mantissa := hlongest.eq hm
  rw [hread, List.append_cancel_left_eq] at hsplit
  rw [hu, read?_of_begins (.decimal hc u), ← hu, decimal]
  simp only [hread, hsplit, if_pos hmarker, Digits.read?_eq_none_iff.2 hrest]

/-- **Every malformed construct is read as a fault** of its cause, and at its place. -/
theorem exists_fault_of_malformed {cause : ScanError.Cause} (h : Malformed s place cause) :
    ∃ taken, read? s = some (fault cause place taken) := by
  cases cause with
  | emptyCharacterLiteral =>
    obtain ⟨rfl, rest, rfl⟩ := h
    exact ⟨1, by rw [read?_of_begins (.character _), character_of_quote]⟩
  | unterminatedLiteral form =>
    obtain ⟨rfl, hunclosed⟩ := h
    exact exists_fault_of_unclosed hunclosed
  | bareNewlineInLiteral form =>
    obtain ⟨rest, hnext, hwhy⟩ := h
    exact ⟨_, read?_of_nextItem hnext hwhy⟩
  | invalidEscapeDigitCount digits =>
    obtain ⟨form, rest, hnext, hwhy⟩ := h
    exact ⟨_, read?_of_nextItem hnext hwhy⟩
  | missingExponentDigit =>
    obtain ⟨mantissa, marker, rest, rfl, hm, hmarker, hrest, rfl⟩ := h
    exact exists_fault_of_marker hm hmarker hrest
  | unterminatedBlockComment =>
    obtain ⟨rfl, body, rfl, hbody⟩ := h
    exact ⟨_, by rw [read?_of_begins (.comment _), comment_of_unclosed hbody]⟩

end Lexis.Piece
