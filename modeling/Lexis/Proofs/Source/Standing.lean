import Lexis.Source.Cursor

/-!
# Cursors that stand in their source

A cursor carries its place along and never looks back at the text behind it. It *stands* in its
source when what it carries agrees with the text: the place is the one a recount from the start of
the text finds, and what is ahead is the text from there on.

- `Cursor.StandsIn`: the agreement.
- `Cursor.skip_succ`: every move is made of single steps.
- `Cursor.StandsIn.advance`, `Cursor.StandsIn.skip`: a step, and so every move, keeps the
  agreement.
-/

namespace Lexis

/-! ## Places -/

namespace Location

theorem offset_step (place : Location) (c : Char) : (place.step c).offset = place.offset + 1 := by
  unfold step
  split <;> rfl

/-- Passing over a text adds its length to the offset. -/
theorem offset_after (place : Location) (text : List Char) :
    (place.after text).offset = place.offset + text.length := by
  induction text generalizing place with
  | nil => rfl
  | cons c text ih =>
    rw [after_cons, ih, offset_step, List.length_cons]
    omega

end Location

namespace SourceText

/-- The place of an offset inside a text has that offset. -/
theorem offset_locationAt {source : SourceText} {n : Nat} (hn : n ≤ source.length) :
    (source.locationAt n).offset = n :=
  Nat.min_eq_left hn

/-- The offset of a place leads back to the place, also for an offset beyond the text. -/
theorem locationAt_offset (source : SourceText) (n : Nat) :
    source.locationAt (source.locationAt n).offset = source.locationAt n := by
  by_cases hn : n ≤ source.length
  · rw [offset_locationAt hn]
  · have hall : source.chars.take n = source.chars := List.take_of_length_le (Nat.le_of_not_le hn)
    have hoff : (source.locationAt n).offset = source.chars.length :=
      Nat.min_eq_right (Nat.le_of_not_le hn)
    rw [hoff, locationAt_eq, locationAt_eq, hall, List.take_length]

/-- The place of an offset is found by going on from the place of an earlier one. -/
theorem locationAt_add (source : SourceText) (m n : Nat) :
    source.locationAt (m + n) = (source.locationAt m).after ((source.chars.drop m).take n) := by
  rw [locationAt_eq, locationAt_eq, List.take_add, Location.after_append]

end SourceText

namespace Cursor

/-! ## Moves are made of single steps -/

@[simp] theorem skip_zero (cursor : Cursor) : cursor.skip 0 = cursor := rfl

/-- Going further is going a step and then the rest of the way. -/
theorem skip_succ (cursor : Cursor) (n : Nat) : cursor.skip (n + 1) = cursor.advance.skip n := by
  obtain ⟨source, location, rest⟩ := cursor
  cases rest with
  | nil => simp [advance, skip]
  | cons c rest => rfl

theorem skip_skip (cursor : Cursor) (m n : Nat) : (cursor.skip m).skip n = cursor.skip (m + n) := by
  induction m generalizing cursor with
  | zero => rw [skip_zero, Nat.zero_add]
  | succ m ih => rw [skip_succ, ih, Nat.succ_add, skip_succ]

/-- At the end of the text every move leaves the cursor where it is. -/
theorem skip_of_rest_eq_nil {cursor : Cursor} (h : cursor.rest = []) (n : Nat) :
    cursor.skip n = cursor := by
  obtain ⟨source, location, rest⟩ := cursor
  obtain rfl : rest = [] := h
  simp [skip]

theorem position_skip (cursor : Cursor) (n : Nat) :
    (cursor.skip n).position = cursor.position + (cursor.rest.take n).length :=
  Location.offset_after cursor.location (cursor.rest.take n)

/-- Every move leads forwards. -/
theorem position_le_skip (cursor : Cursor) (n : Nat) :
    cursor.position ≤ (cursor.skip n).position := by
  rw [position_skip]
  exact Nat.le_add_right _ _

/-- What is passed and what is ahead are the same length in all, wherever a move leads. -/
theorem position_add_length_skip (cursor : Cursor) (n : Nat) :
    (cursor.skip n).position + (cursor.skip n).rest.length =
      cursor.position + cursor.rest.length := by
  rw [position_skip, rest_skip, List.length_take, List.length_drop]
  omega

/-- A cursor that passes over what it has ahead first has the rest ahead. -/
theorem rest_skip_of_eq {cursor : Cursor} {text more : List Char}
    (h : cursor.rest = text ++ more) : (cursor.skip text.length).rest = more := by
  rw [rest_skip, h, List.drop_left]

theorem location_skip_of_eq {cursor : Cursor} {text more : List Char}
    (h : cursor.rest = text ++ more) :
    (cursor.skip text.length).location = cursor.location.after text := by
  rw [location_skip, h, List.take_left]

/-! ## Standing -/

/-- What a cursor carries agrees with a source text. -/
structure StandsIn (source : SourceText) (cursor : Cursor) : Prop where
  source_eq : cursor.source = source
  position_le : cursor.position ≤ source.length
  location_eq : cursor.location = source.locationAt cursor.position
  rest_eq : cursor.rest = source.chars.drop cursor.position

/-- The cursor before the first codepoint stands. -/
theorem standsIn_cursor (source : SourceText) : StandsIn source source.cursor :=
  ⟨rfl, Nat.zero_le _, rfl, rfl⟩

variable {source : SourceText} {cursor : Cursor}

/-- What a standing cursor has ahead is the rest of the text. -/
theorem StandsIn.length_rest (h : StandsIn source cursor) :
    cursor.rest.length = source.length - cursor.position := by
  rw [h.rest_eq, List.length_drop]
  rfl

/-- The place a move leads to is counted from the start of the text, also where the move would
lead beyond the text's end. -/
theorem StandsIn.location_skip (h : StandsIn source cursor) (n : Nat) :
    (cursor.skip n).location = source.locationAt (cursor.position + n) := by
  rw [SourceText.locationAt_add, ← h.rest_eq, ← h.location_eq]
  rfl

/-- **One step keeps a cursor standing**, over a newline or over any other codepoint. -/
theorem StandsIn.advance (h : StandsIn source cursor) : StandsIn source cursor.advance := by
  cases hrest : cursor.rest with
  | nil =>
    rw [show cursor.advance = cursor from skip_of_rest_eq_nil hrest 1]
    exact h
  | cons c rest =>
    have hpos : cursor.advance.position = cursor.position + 1 := by
      rw [Cursor.advance, position_skip, hrest]
      rfl
    -- with something ahead the cursor lies before the end of the text
    have hlt : cursor.position < source.length := by
      refine Nat.lt_of_not_le fun hle => ?_
      have hdrop : source.chars.drop cursor.position = c :: rest := by
        rw [← h.rest_eq, hrest]
      rw [List.drop_eq_nil_of_le hle] at hdrop
      exact List.cons_ne_nil c rest hdrop.symm
    refine ⟨h.source_eq, ?_, ?_, ?_⟩
    · rw [hpos]
      exact hlt
    · rw [hpos]
      exact h.location_skip 1
    · rw [hpos]
      show cursor.rest.drop 1 = _
      rw [h.rest_eq, List.drop_drop]

/-- **Every move keeps a cursor standing.** -/
theorem StandsIn.skip (h : StandsIn source cursor) (n : Nat) :
    StandsIn source (cursor.skip n) := by
  induction n generalizing cursor with
  | zero => exact h
  | succ n ih =>
    rw [skip_succ]
    exact ih h.advance

/-- A standing cursor has nothing ahead exactly at the end of its source. -/
theorem StandsIn.rest_eq_nil_iff (h : StandsIn source cursor) :
    cursor.rest = [] ↔ cursor.position = source.length := by
  have hle : cursor.position ≤ source.chars.length := h.position_le
  rw [h.rest_eq, List.drop_eq_nil_iff]
  show source.chars.length ≤ cursor.position ↔ cursor.position = source.chars.length
  omega

end Cursor

end Lexis
