import Lexis.Piece.Basic
import Lexis.Proofs.Text.Search

/-!
# The language of items

What may stand in a quoted literal, said without reading it: which items there are, what must follow
a numbered one so that it is not longer, and what it is for a place to have no item.

- `Item.Fits`: an item may stand in a literal, before a given text.
- `Item.AllFit`: so may each of several items in a row.
- `Item.Fault.At`: no item begins at the head of a text, and why.
- `Item.read_of_fits`, `Item.fits_of_read`, `Item.read_eq_error_iff`: reading finds just these.
- `Piece.stringItems_append`, `Piece.stringItems_of_quote`, `Piece.stringItems_of_fault`: reading
  the items of a string.
-/

namespace Lexis

namespace Item

/-! ## Items -/

/-- The item may stand before `rest` in a literal that `close` closes: a codepoint that stands for
itself is no newline, backslash or closing delimiter, a backslash takes one of four codepoints or
one to eight hexadecimal digits, and those are all the digits there are. -/
def Fits (close : Char) (rest : List Char) : Item → Prop
  | verbatim c => c ≠ '\n' ∧ c ≠ '\\' ∧ c ≠ close
  | escaped c => c = '\\' ∨ c = '\'' ∨ c = '"' ∨ c = '\x60'
  | numbered digits =>
    (∀ d ∈ digits, Text.isHexDigit d = true) ∧ 1 ≤ digits.length ∧ digits.length ≤ 8 ∧
      ∀ d, rest.head? = some d → Text.isHexDigit d = false

/-- How several items in a row are written. -/
def textOf (items : List Item) : List Char := items.flatMap text

/-- Each of the items may stand where it does, the last one before `rest`. -/
def AllFit (close : Char) : List Item → List Char → Prop
  | [], _ => True
  | item :: items, rest => item.Fits close (textOf items ++ rest) ∧ AllFit close items rest

@[simp] theorem textOf_cons (item : Item) (items : List Item) :
    textOf (item :: items) = item.text ++ textOf items := List.flatMap_cons

variable {close : Char} {item : Item} {items : List Item} {s rest : List Char}

/-- Of the text that follows an item only the first codepoint matters. -/
theorem Fits.congr {other : List Char} (h : item.Fits close rest)
    (hhead : other.head? = rest.head?) : item.Fits close other := by
  cases item with
  | verbatim c => exact h
  | escaped c => exact h
  | numbered digits => exact ⟨h.1, h.2.1, h.2.2.1, fun d hd => h.2.2.2 d (hhead ▸ hd)⟩

theorem AllFit.congr {other : List Char} (h : AllFit close items rest)
    (hhead : other.head? = rest.head?) : AllFit close items other := by
  induction items with
  | nil => trivial
  | cons item items ih =>
    refine ⟨h.1.congr ?_, ih h.2⟩
    rw [List.head?_append, List.head?_append, hhead]

theorem isEscapable_iff {c : Char} :
    isEscapable c = true ↔ c = '\\' ∨ c = '\'' ∨ c = '"' ∨ c = '\x60' := by
  simp [isEscapable, or_assoc]

/-- No hexadecimal digit can be escaped, so a backslash begins one kind of escape only. -/
theorem not_isEscapable_of_isHexDigit {c : Char} (hc : Text.isHexDigit c = true) :
    isEscapable c = false := by
  refine Bool.eq_false_iff.2 fun h => ?_
  rcases isEscapable_iff.1 h with rfl | rfl | rfl | rfl <;> exact absurd hc (by decide)

/-- An item that fits is read. -/
theorem read_of_fits (h : item.Fits close rest) : read (item.text ++ rest) = .ok (item, rest) := by
  cases item with
  | verbatim c =>
    show read (c :: rest) = _
    rw [read, if_neg h.1, if_neg h.2.1]
  | escaped c =>
    show readEscape (c :: rest) = _
    rw [readEscape, if_pos (isEscapable_iff.2 h)]
  | numbered digits =>
    obtain ⟨hhex, hpos, hle, hrest⟩ := h
    show readEscape (digits ++ rest) = _
    cases digits with
    | nil => exact absurd hpos (by decide)
    | cons d digits =>
      have hd : isEscapable d = false := not_isEscapable_of_isHexDigit (hhex d List.mem_cons_self)
      rw [List.cons_append, readEscape, if_neg (by rw [hd]; decide), ← List.cons_append,
        Text.takeWhile_append_of_head hhex hrest, Text.dropWhile_append_of_head hhex hrest]
      exact if_pos ⟨hpos, hle⟩

/-- An item that is read fits, unless it is the closing delimiter. -/
theorem fits_of_read (h : read s = .ok (item, rest)) (hclose : s.head? ≠ some close) :
    item.Fits close rest := by
  cases s with
  | nil => exact absurd h (by simp [read])
  | cons c t =>
    rw [read] at h
    split at h
    · exact absurd h (by simp)
    next hnewline =>
    split at h
    next hback =>
      cases t with
      | nil => exact absurd h (by simp [readEscape])
      | cons d t =>
        rw [readEscape] at h
        split at h
        next hd =>
          obtain ⟨rfl, rfl⟩ := Prod.mk.inj (Except.ok.inj h)
          exact isEscapable_iff.1 hd
        next hd =>
        dsimp only at h
        split at h
        -- all the digits were taken, so no other one follows
        next hlen =>
          obtain ⟨rfl, rfl⟩ := Prod.mk.inj (Except.ok.inj h)
          exact ⟨fun d hd => Text.of_mem_takeWhile hd, hlen.1, hlen.2,
            fun d hd => Text.head_dropWhile hd⟩
        · exact absurd h (by simp)
    -- the codepoint stands for itself
    next hback =>
      obtain ⟨rfl, rfl⟩ := Prod.mk.inj (Except.ok.inj h)
      exact ⟨hnewline, hback, fun hc => hclose (congrArg some hc)⟩

/-- An item that fits is not taken for the closing delimiter. -/
theorem Fits.head?_ne (h : item.Fits close rest) (hclose : close ≠ '\\') (s : List Char) :
    (item.text ++ s).head? ≠ some close := by
  intro hhead
  cases item with
  | verbatim c => exact h.2.2 (Option.some.inj hhead)
  | escaped c => exact hclose (Option.some.inj hhead).symm
  | numbered digits => exact hclose (Option.some.inj hhead).symm

/-! ## Places without an item -/

/-- No item begins at the head of a text: the text ends, right there or after a backslash, a newline
stands there, or a backslash is followed by something other than a delimiter, a backslash or one to
eight hexadecimal digits. -/
def Fault.At : Fault → List Char → Prop
  | endOfText, s => s = [] ∨ s = ['\\']
  | newline, s => ∃ rest, s = '\n' :: rest
  | digitCount n, s => ∃ digits rest, s = '\\' :: (digits ++ rest) ∧
      (∀ d ∈ digits, Text.isHexDigit d = true) ∧ digits.length = n ∧
      (∀ d, rest.head? = some d → Text.isHexDigit d = false) ∧
      (n = 0 ∧ (∃ d, rest.head? = some d ∧ isEscapable d = false) ∨ 8 < n)

theorem readEscape_eq_error {why : Fault} (h : readEscape s = .error why) : why.At ('\\' :: s) := by
  cases s with
  | nil =>
    obtain rfl := Except.error.inj h
    exact .inr rfl
  | cons c t =>
    rw [readEscape] at h
    split at h
    · exact absurd h (by simp)
    next hc =>
    dsimp only at h
    split at h
    · exact absurd h (by simp)
    next hlen =>
      obtain rfl := Except.error.inj h
      refine ⟨(c :: t).takeWhile Text.isHexDigit, (c :: t).dropWhile Text.isHexDigit, ?_,
        fun d hd => Text.of_mem_takeWhile hd, rfl, fun d hd => Text.head_dropWhile hd, ?_⟩
      · rw [List.takeWhile_append_dropWhile]
      · -- without digits it is the codepoint after the backslash that is no escape
        by_cases hdigits : (c :: t).takeWhile Text.isHexDigit = []
        · refine .inl ⟨by rw [hdigits]; rfl, c, ?_, Bool.eq_false_iff.2 hc⟩
          have happ := List.takeWhile_append_dropWhile (p := Text.isHexDigit) (l := c :: t)
          rw [hdigits, List.nil_append] at happ
          rw [happ]
          rfl
        · have hpos := List.length_pos_iff.2 hdigits
          exact .inr (by omega)

theorem readEscape_of_at {n : Nat} (h : (Fault.digitCount n).At ('\\' :: s)) :
    readEscape s = .error (.digitCount n) := by
  obtain ⟨digits, rest, hs, hhex, hlen, hrest, hcount⟩ := h
  obtain rfl := (List.cons.inj hs).2
  have htake := Text.takeWhile_append_of_head hhex hrest
  obtain ⟨c, t, hct, hc⟩ : ∃ c t, digits ++ rest = c :: t ∧ isEscapable c = false := by
    cases digits with
    | nil =>
      obtain ⟨-, d, hd, hesc⟩ | hcount := hcount
      · obtain ⟨t, rfl⟩ := List.head?_eq_some_iff.1 hd
        exact ⟨d, t, rfl, hesc⟩
      · rw [← hlen] at hcount
        exact absurd hcount (by simp)
    | cons d digits =>
      exact ⟨d, digits ++ rest, rfl, not_isEscapable_of_isHexDigit (hhex d List.mem_cons_self)⟩
  rw [hct] at htake ⊢
  rw [readEscape, if_neg (by rw [hc]; decide), htake]
  dsimp only
  rw [hlen]
  exact if_neg (by omega)

/-- **Reading finds no item exactly where none begins**, and says why. -/
theorem read_eq_error_iff {why : Fault} : read s = .error why ↔ why.At s := by
  constructor
  · intro h
    cases s with
    | nil =>
      obtain rfl := Except.error.inj h
      exact .inl rfl
    | cons c t =>
      rw [read] at h
      split at h
      next hnewline =>
        obtain rfl := Except.error.inj h
        exact ⟨t, by rw [hnewline]⟩
      next hnewline =>
      split at h
      next hback =>
        rw [hback]
        exact readEscape_eq_error h
      · exact absurd h (by simp)
  · intro h
    cases why with
    | endOfText =>
      rcases h with rfl | rfl
      · rfl
      · rfl
    | newline =>
      obtain ⟨rest, rfl⟩ := h
      rfl
    | digitCount n =>
      obtain ⟨digits, rest, rfl, -⟩ := id h
      exact readEscape_of_at h

end Item

namespace Piece

open Item (textOf AllFit)

variable {items : List Item} {s rest : List Char}

/-! ## The items of a string -/

/-- Items that fit are read one after another. -/
theorem stringItems_append (h : AllFit '"' items rest) :
    stringItems (textOf items ++ rest) =
      (items ++ (stringItems rest).1, (stringItems rest).2) := by
  induction items with
  | nil => rfl
  | cons item items ih =>
    -- the first item is not the closing delimiter, so it is read, and then the items after it
    rw [Item.textOf_cons, List.append_assoc, stringItems, if_neg (h.1.head?_ne (by decide) _)]
    have hread := Item.read_of_fits h.1
    split
    next why hwhy =>
      rw [hread] at hwhy
      exact absurd hwhy (by simp)
    next item' after hitem =>
      rw [hread] at hitem
      obtain ⟨rfl, rfl⟩ := Prod.mk.inj (Except.ok.inj hitem)
      rw [ih h.2]
      rfl

/-- An item that is read is the first of the items. -/
theorem stringItems_of_read {item : Item} (hhead : s.head? ≠ some '"')
    (hread : Item.read s = .ok (item, rest)) :
    stringItems s = (item :: (stringItems rest).1, (stringItems rest).2) := by
  have hfit : AllFit '"' [item] rest := ⟨Item.fits_of_read hread hhead, trivial⟩
  have hitems := stringItems_append hfit
  rwa [textOf, List.flatMap_singleton, Item.text_append_of_read hread] at hitems

/-- Nothing is read where the closing delimiter stands. -/
theorem stringItems_of_quote (rest : List Char) : stringItems ('"' :: rest) = ([], none) := by
  rw [stringItems]
  exact if_pos rfl

/-- Nothing is read where no item begins. -/
theorem stringItems_of_fault {why : Item.Fault} (hhead : s.head? ≠ some '"') (h : why.At s) :
    stringItems s = ([], some (why, s)) := by
  have hread := Item.read_eq_error_iff.2 h
  rw [stringItems, if_neg hhead]
  split
  next why' hwhy =>
    rw [hread] at hwhy
    rw [Except.error.inj hwhy]
  next item after hitem =>
    rw [hread] at hitem
    exact absurd hitem (by simp)

end Piece

end Lexis
