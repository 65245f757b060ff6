import Lexis.Proofs.Piece.Malformed
import Lexis.Proofs.Token.Longest

/-!
# What the pieces stand for

The rules for reading are gone through once more, now with what each of them finds: skipped text, a
token in the language of its kind and the longest there is, or a malformed construct.

- `Piece.Means`: what a piece says of the text it is read off.
- `Piece.means_of_read?`: what is read is true of the text.
- `Piece.read?_eq_gap_iff`, `Piece.read?_eq_fault_iff`: gaps and faults are read wherever there are
  any.
-/

namespace Lexis.Piece

/-- What a piece says of the text it is read off: a gap is skipped text, a token is in the language
of its kind and is the longest token, and a fault is a malformed construct. -/
def Means (s : List Char) : Piece → Prop
  | gap text => ∃ rest, s = text ++ rest ∧ Skipped text rest
  | token kind text => kind.Language text ∧ Text.IsLongest IsTokenText text s
  | fault cause place _ => Malformed s place cause

variable {s text rest : List Char} {form : Quoted} {n : Nat}

/-! ## Rule by rule -/

theorem means_comment (rest : List Char) : Means ('#' :: rest) (comment rest) := by
  rcases comment_cases rest with ⟨text, after, rfl, hskipped⟩ | ⟨body, rfl, hbody⟩
  · rw [comment_of_skipped hskipped]
    exact ⟨after, rfl, hskipped⟩
  · rw [comment_of_unclosed hbody]
    exact ⟨rfl, body, rfl, hbody⟩

theorem means_mark {mark : Mark} (h : Mark.atHead? s = some mark) :
    Means s (token (.mark mark) mark.text) :=
  Kind.isLongest_mark h

/-- What is wrong where an item is missing depends on what stands in its place. -/
theorem means_itemFault {why : Item.Fault} (h : NextItem s n rest form) (hwhy : why.At rest) :
    Means s (itemFault form n rest why) := by
  cases why with
  | endOfText => exact ⟨rfl, .inl ⟨n, rest, h, hwhy⟩⟩
  | newline => exact ⟨rest, h, hwhy⟩
  | digitCount digits => exact ⟨form, rest, h, hwhy⟩

/-- A quoted literal means what it should once it is in the language of its form. -/
theorem means_quoted (h : (Kind.quoted form).Language text) (hs : text <+: s) :
    Means s (token (.quoted form) text) :=
  ⟨h, Kind.isLongest_quoted h hs⟩

theorem means_character (rest : List Char) : Means ('\'' :: rest) (character rest) := by
  rcases character_cases rest with ⟨after, rfl⟩ | ⟨hhead, why, hwhy⟩ | ⟨item, after, rfl, hfits⟩
  · rw [character_of_quote]
    exact ⟨rfl, after, rfl⟩
  · rw [character_of_fault hhead hwhy]
    exact means_itemFault ⟨rfl, rfl, hhead⟩ hwhy
  · rw [character_of_fits hfits]
    by_cases hclosed : after.head? = some '\''
    · rw [if_pos hclosed]
      obtain ⟨rest, rfl⟩ := List.head?_eq_some_iff.1 hclosed
      -- what follows the closing delimiter has no say in whether the item fits
      have hfits' : item.Fits '\'' ['\''] := hfits.congr rfl
      exact means_quoted ⟨item, hfits', rfl⟩ ⟨rest, by simp⟩
    · rw [if_neg hclosed]
      exact ⟨rfl, .inr (.inl ⟨rfl, item, after, rfl, hfits, hclosed⟩)⟩

theorem means_string (rest : List Char) : Means ('"' :: rest) (string rest) := by
  obtain ⟨items, after, rfl, hfit, ⟨rest, rfl⟩ | ⟨hhead, why, hwhy⟩⟩ := string_cases rest
  · rw [string_of_allFit hfit]
    have hfit' : Item.AllFit '"' items ['"'] := hfit.congr rfl
    exact means_quoted ⟨items, hfit', rfl⟩ ⟨rest, by simp⟩
  · rw [string_of_fault hfit hhead hwhy]
    exact means_itemFault ⟨items, rfl, rfl, hfit, hhead⟩ hwhy

theorem means_rawString (rest : List Char) : Means ('\x60' :: rest) (rawString rest) := by
  rcases rawString_cases rest with ⟨body, after, rfl, hbody⟩ | hback
  · rw [rawString_of_not_mem hbody]
    exact means_quoted ⟨body, hbody, rfl⟩ ⟨after, by simp⟩
  · rw [rawString_of_unclosed hback]
    exact ⟨rfl, .inr (.inr ⟨rfl, rest, rfl, hback⟩)⟩

theorem means_decimal {c : Char} (hc : c.isDigit = true) (rest : List Char) :
    Means (c :: rest) (decimal (c :: rest)) := by
  rcases decimal_cases hc rest with
    ⟨text, hread, hlongest⟩ | ⟨mantissa, marker, after, hs, hm, hmarker, hafter, hread⟩
  · rw [hread]
    exact ⟨hlongest.mem, Kind.isLongest_decimal hlongest⟩
  · rw [hread]
    exact ⟨mantissa, marker, after, hs, hm, hmarker, hafter, rfl⟩

theorem means_word {c : Char} (hc : c.isAlpha = true) (rest : List Char) :
    Means (c :: rest) (word (c :: rest)) := by
  obtain ⟨kind, text, hread, hkind, hlongest⟩ := word_cases hc rest
  rw [hread]
  exact ⟨hkind, hlongest⟩

/-- **What is read is true of the text.** -/
theorem means_of_read? {piece : Piece} (h : read? s = some piece) : Means s piece := by
  cases begins_of_read? h with
  | space rest => exact ⟨rest, rfl, .space rest⟩
  | comment rest => exact means_comment rest
  | mark hmark => exact means_mark hmark
  | character rest => exact means_character rest
  | string rest => exact means_string rest
  | rawString rest => exact means_rawString rest
  | decimal hc rest => exact means_decimal hc rest
  | word hc rest => exact means_word hc rest
  | @unknown c hspace hsign hmark hdigit halpha rest =>
    have hunknown : Kind.unknown.Language [c] := ⟨c, rfl, hspace, hsign, halpha, hdigit, hmark⟩
    exact ⟨hunknown, Kind.isLongest_unknown hunknown ⟨rest, rfl⟩⟩

/-! ## Gaps and faults -/

/-- Skipped text is read as a gap. -/
theorem read?_of_skipped (h : Skipped text rest) : read? (text ++ rest) = some (gap text) := by
  cases text with
  | nil => exact absurd h.length_pos (Nat.lt_irrefl 0)
  | cons c text =>
    rw [List.cons_append]
    by_cases hc : c = '#'
    · subst hc
      rw [read?_of_begins (.comment _), comment_of_skipped h]
    · cases h with
      | space => exact read?_of_begins (.space rest)
      | _ => exact absurd rfl hc

/-- **A gap is read exactly where a text begins with skipped text.** -/
theorem read?_eq_gap_iff :
    read? s = some (gap text) ↔ ∃ rest, s = text ++ rest ∧ Skipped text rest := by
  constructor
  · intro h
    exact means_of_read? h
  · rintro ⟨rest, rfl, h⟩
    exact read?_of_skipped h

/-- **A fault is read exactly where a text begins with a malformed construct.** -/
theorem read?_eq_fault_iff {cause : ScanError.Cause} {place : Nat} :
    (∃ taken, read? s = some (fault cause place taken)) ↔ Malformed s place cause := by
  constructor
  · rintro ⟨taken, h⟩
    exact means_of_read? h
  · exact exists_fault_of_malformed

/-- A construct is malformed in one way only. -/
theorem Malformed.unique {cause cause' : ScanError.Cause} {place place' : Nat}
    (h : Malformed s place cause) (h' : Malformed s place' cause') :
    cause' = cause ∧ place' = place := by
  obtain ⟨taken, hread⟩ := exists_fault_of_malformed h
  obtain ⟨taken', hread'⟩ := exists_fault_of_malformed h'
  obtain ⟨rfl, rfl, -⟩ := fault.inj (Option.some.inj (hread.symm.trans hread'))
  exact ⟨rfl, rfl⟩

end Lexis.Piece
