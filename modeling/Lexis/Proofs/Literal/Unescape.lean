import Lexis.Literal.Escape
import Lexis.Proofs.Piece.Item
import Lexis.Proofs.Text.Codepoint

/-!
# What the items of a literal denote

Scanning cuts the body of a literal into items, and escapes are decoded again when its value is
asked for. Both cut at the same places, so the value can be read off the items.

- `Item.Denotes`: the codepoint that an item stands for.
- `Item.NoCodepoint`, `Item.FirstInvalid`: digits that write no codepoint's number, and the first
  such digits among items.
- `Literal.IsRun`: digits up to where they end.
- `Literal.unescape_of_denotes`, `Literal.unescape_of_firstInvalid`: the two outcomes of decoding.
- `Item.denotes_or_firstInvalid`: there is no third one.
-/

namespace Lexis

/-! ## Items -/

namespace Item

/-- The codepoint that an item stands for: itself, or the one whose number the digits write. -/
def Denotes : Item → Char → Prop
  | verbatim c, d => d = c
  | escaped c, d => d = c
  | numbered digits, d => d.toNat = Text.hexValue digits

/-- The digits write the number of a surrogate, or one above `10ffff`. -/
def NoCodepoint (digits : List Char) : Prop :=
  (0xd800 ≤ Text.hexValue digits ∧ Text.hexValue digits ≤ 0xdfff) ∨
    0x10ffff < Text.hexValue digits

instance (digits : List Char) : Decidable (NoCodepoint digits) :=
  inferInstanceAs (Decidable (_ ∨ _))

/-- The first item that denotes no codepoint has these digits. -/
def FirstInvalid (items : List Item) (digits : List Char) : Prop :=
  ∃ before after, items = before ++ numbered digits :: after ∧ NoCodepoint digits ∧
    ∀ other, numbered other ∈ before → ¬NoCodepoint other

variable {item : Item} {items : List Item} {close : Char} {rest digits : List Char}

theorem exists_denotes_or (item : Item) :
    (∃ c, item.Denotes c) ∨ ∃ digits, item = numbered digits ∧ NoCodepoint digits := by
  cases item with
  | verbatim c => exact .inl ⟨c, rfl⟩
  | escaped c => exact .inl ⟨c, rfl⟩
  | numbered digits =>
    cases h : Text.scalar? (Text.hexValue digits) with
    | none => exact .inr ⟨digits, rfl, Text.scalar?_eq_none_iff.1 h⟩
    | some c => exact .inl ⟨c, Text.scalar?_eq_some_iff.1 h⟩

/-- Digits that write the number of a codepoint are no surrogate's and not too great. -/
theorem Denotes.not_noCodepoint {c : Char} (h : (numbered digits).Denotes c) :
    ¬NoCodepoint digits := by
  intro hno
  have hnone := Text.scalar?_eq_none_iff.2 hno
  rw [Text.scalar?_eq_some_iff.2 h] at hnone
  exact absurd hnone (by simp)

/-- **Every item denotes a codepoint, or there is a first one that denotes none.** -/
theorem denotes_or_firstInvalid (items : List Item) :
    (∃ chars, List.Forall₂ Denotes items chars) ∨ ∃ digits, FirstInvalid items digits := by
  induction items with
  | nil => exact .inl ⟨[], .nil⟩
  | cons item items ih =>
    rcases item.exists_denotes_or with ⟨c, hc⟩ | ⟨digits, rfl, hdigits⟩
    · rcases ih with ⟨chars, hchars⟩ | ⟨digits, before, after, rfl, hdigits, hbefore⟩
      · exact .inl ⟨c :: chars, .cons hc hchars⟩
      · refine .inr ⟨digits, item :: before, after, rfl, hdigits, fun other hother => ?_⟩
        rcases List.mem_cons.1 hother with rfl | hother
        · exact hc.not_noCodepoint
        · exact hbefore other hother
    · exact .inr ⟨digits, [], items, rfl, hdigits, fun other hother => absurd hother (by simp)⟩

/-- Where all items denote codepoints none is invalid. -/
theorem not_noCodepoint_of_mem {chars : List Char} (h : List.Forall₂ Denotes items chars)
    (hmem : numbered digits ∈ items) : ¬NoCodepoint digits := by
  induction h with
  | nil => exact absurd hmem List.not_mem_nil
  | cons hc _ ih =>
    rcases List.mem_cons.1 hmem with rfl | hmem
    · exact hc.not_noCodepoint
    · exact ih hmem

theorem FirstInvalid.mem (h : FirstInvalid items digits) :
    numbered digits ∈ items ∧ NoCodepoint digits := by
  obtain ⟨before, after, rfl, hdigits, -⟩ := h
  exact ⟨List.mem_append_right before List.mem_cons_self, hdigits⟩

/-- Of two items that denote no codepoint only one comes first. -/
theorem FirstInvalid.unique {other : List Char} (h : FirstInvalid items digits)
    (hother : FirstInvalid items other) : digits = other := by
  obtain ⟨before, after, hsplit, hno, hbefore⟩ := h
  obtain ⟨before', after', rfl, hno', hbefore'⟩ := hother
  -- neither item stands before the other, so the items before them are as many
  rcases List.append_eq_append_iff.1 hsplit with ⟨more, hmore, hrest⟩ | ⟨more, hmore, hrest⟩
  · cases more with
    | nil => exact (Item.numbered.inj (List.cons.inj hrest).1).symm
    | cons item more =>
      obtain rfl := (List.cons.inj hrest).1
      exact absurd hno' (hbefore _ (hmore ▸ List.mem_append_right before' List.mem_cons_self))
  · cases more with
    | nil => exact Item.numbered.inj (List.cons.inj hrest).1
    | cons item more =>
      obtain rfl := (List.cons.inj hrest).1
      exact absurd hno (hbefore' _ (hmore ▸ List.mem_append_right before List.mem_cons_self))

/-- What follows an item need not follow it: at the end of a text the item fits as well. -/
theorem Fits.of_head? {other : List Char} (h : item.Fits close rest)
    (hhead : ∀ d, other.head? = some d → rest.head? = some d) : item.Fits close other := by
  cases item with
  | verbatim c => exact h
  | escaped c => exact h
  | numbered digits => exact ⟨h.1, h.2.1, h.2.2.1, fun d hd => h.2.2.2 d (hhead d hd)⟩

theorem AllFit.to_nil (h : AllFit close items rest) : AllFit close items [] := by
  induction items with
  | nil => trivial
  | cons item items ih =>
    refine ⟨h.1.of_head? fun d hd => ?_, ih h.2⟩
    rw [List.append_nil] at hd
    rw [List.head?_append, hd]
    rfl

end Item

/-! ## Decoding -/

namespace Literal

open Item (Denotes NoCodepoint FirstInvalid AllFit textOf)

variable {item : Item} {items : List Item} {close c : Char} {s rest digits chars : List Char}

theorem unescape_of_ne {c : Char} (hc : c ≠ '\\') (rest : List Char) :
    unescape (c :: rest) = (unescape rest).map (c :: ·) := by
  rw [unescape, if_neg hc]

theorem unescape_of_readEscape (h : readEscape s = .ok (c, rest)) :
    unescape ('\\' :: s) = (unescape rest).map (c :: ·) := by
  rw [unescape, if_pos rfl]
  split
  next fault hfault =>
    rw [h] at hfault
    exact absurd hfault (by simp)
  next value after hvalue =>
    rw [h] at hvalue
    obtain ⟨rfl, rfl⟩ := Prod.mk.inj (Except.ok.inj hvalue)
    rfl

theorem unescape_of_readEscape_error {fault : EscapeFault} (h : readEscape s = .error fault) :
    unescape ('\\' :: s) = .error fault := by
  rw [unescape, if_pos rfl]
  split
  next fault' hfault =>
    rw [h] at hfault
    rw [Except.error.inj hfault]
  next value after hvalue =>
    rw [h] at hvalue
    exact absurd hvalue (by simp)

/-- Hexadecimal digits, at least one, and all that stand before `rest`. -/
structure IsRun (digits rest : List Char) : Prop where
  ne_nil : digits ≠ []
  isHexDigit : ∀ d ∈ digits, Text.isHexDigit d = true
  ends : ∀ d, rest.head? = some d → Text.isHexDigit d = false

/-- A run of digits is read to its end, and is the number of a codepoint or at fault as a whole. -/
theorem IsRun.readEscape_eq (h : IsRun digits rest) :
    readEscape (digits ++ rest) = (codepointOf digits).map (·, rest) := by
  obtain ⟨hne, hhex, hrest⟩ := h
  cases digits with
  | nil => exact absurd rfl hne
  | cons d digits =>
    have hd := hhex d List.mem_cons_self
    have hesc : ¬(d = '\\' ∨ d = '\'' ∨ d = '"' ∨ d = '\x60') := by
      rw [← Item.isEscapable_iff, Item.not_isEscapable_of_isHexDigit hd]
      decide
    have htail : ∀ e ∈ digits, Text.isHexDigit e = true :=
      fun e he => hhex e (List.mem_cons_of_mem d he)
    rw [List.cons_append, readEscape, if_neg hesc, if_pos hd,
      Text.takeWhile_append_of_head htail hrest, Text.dropWhile_append_of_head htail hrest]
    cases codepointOf (d :: digits) <;> rfl

/-- Decoding takes the same digits as scanning: all there are. -/
theorem readEscape_of_fits (h : (Item.numbered digits).Fits close rest) :
    readEscape (digits ++ rest) =
      match Text.scalar? (Text.hexValue digits) with
      | some c => .ok (c, rest)
      | none => .error (.invalidCodepoint digits) := by
  obtain ⟨hhex, hpos, hle, hrest⟩ := h
  have hrun : IsRun digits rest := ⟨List.length_pos_iff.1 hpos, hhex, hrest⟩
  rw [hrun.readEscape_eq, codepointOf, if_neg (Nat.not_lt_of_le hle)]
  cases Text.scalar? (Text.hexValue digits) <;> rfl

/-- **An item is decoded to the codepoint that it denotes**, and what follows it is decoded next. -/
theorem unescape_item (h : item.Fits close rest) (hc : item.Denotes c) :
    unescape (item.text ++ rest) = (unescape rest).map (c :: ·) := by
  cases item with
  | verbatim d =>
    obtain rfl : c = d := hc
    exact unescape_of_ne h.2.1 rest
  | escaped d =>
    obtain rfl : c = d := hc
    exact unescape_of_readEscape (if_pos h)
  | numbered digits =>
    have hread := readEscape_of_fits h
    rw [Text.scalar?_eq_some_iff.2 hc] at hread
    exact unescape_of_readEscape hread

/-- Items that denote codepoints are decoded to them, one codepoint for each item. -/
theorem unescape_of_denotes (h : AllFit close items []) (hd : List.Forall₂ Denotes items chars) :
    unescape (textOf items) = .ok chars := by
  induction hd with
  | nil =>
    show unescape [] = _
    rw [unescape]
  | cons hc _ ih =>
    rw [Item.textOf_cons]
    rw [AllFit, List.append_nil] at h
    rw [unescape_item h.1 hc, ih h.2]
    rfl

/-- The first item without a codepoint decides, whatever comes after it. -/
theorem unescape_of_firstInvalid (h : AllFit close items []) (hd : FirstInvalid items digits) :
    unescape (textOf items) = .error (.invalidCodepoint digits) := by
  obtain ⟨before, after, rfl, hdigits, hbefore⟩ := hd
  induction before with
  | nil =>
    rw [List.nil_append, AllFit, List.append_nil] at h
    have hread := readEscape_of_fits h.1
    rw [Text.scalar?_eq_none_iff.2 hdigits] at hread
    rw [List.nil_append, Item.textOf_cons]
    exact unescape_of_readEscape_error hread
  | cons item before ih =>
    rw [List.cons_append, AllFit, List.append_nil] at h
    rcases item.exists_denotes_or with ⟨c, hc⟩ | ⟨other, rfl, hother⟩
    · rw [List.cons_append, Item.textOf_cons, unescape_item h.1 hc,
        ih h.2 fun other hother => hbefore other (List.mem_cons_of_mem item hother)]
      rfl
    · exact absurd hother (hbefore other List.mem_cons_self)

end Literal

end Lexis
