import Lexis.Proofs.Scan.Reach

/-!
# Cursors under way

Whoever reads a text moves one cursor, keeps copies of it, and goes back to any of them at any
time. Places are never counted afresh on the way, so this module shows that they need not be.

- `Cursor.Move`, `Track`: what can be done with a cursor, and the cursor with the copies kept of it.
- `Track.exists_step_eq_skip`: whatever is done, short of going back to a copy, moves forwards.
- `Track.StandsIn.run`: after every run the cursor and all copies stand in the source.
- `places_agree_with_recount`: places along every run, and all places in the result of a scan, are
  the ones a recount finds.
-/

namespace Lexis

/-- What can be done with a cursor. -/
inductive Cursor.Move where
  | advance
  | eat (c : Char)
  | eatIf (p : Char → Bool)
  | eatWhile (p : Char → Bool)
  | eatText (text : List Char)
  | eatLine
  | eatThrough (mark : List Char)
  /-- Keeps a copy of the cursor. -/
  | save
  /-- Goes back to the copy with this index, the first copy kept being number zero. -/
  | restore (index : Nat)

/-- A cursor under way, with the copies kept of it. -/
structure Track where
  cursor : Cursor
  copies : List Cursor

/-- A cursor at the start of a text, before any copy is kept. -/
def SourceText.track (source : SourceText) : Track := ⟨source.cursor, []⟩

namespace Track

open Cursor (Move)

/-- Does one thing with the cursor. A copy that was never kept cannot be gone back to, and the
cursor stays. -/
def step (track : Track) : Move → Track
  | .advance => { track with cursor := track.cursor.advance }
  | .eat c => { track with cursor := (track.cursor.eat c).2 }
  | .eatIf p => { track with cursor := (track.cursor.eatIf p).2 }
  | .eatWhile p => { track with cursor := (track.cursor.eatWhile p).2 }
  | .eatText text => { track with cursor := (track.cursor.eatText text).2 }
  | .eatLine => { track with cursor := track.cursor.eatLine }
  | .eatThrough mark => { track with cursor := (track.cursor.eatThrough mark).2 }
  | .save => { track with copies := track.copies ++ [track.cursor] }
  | .restore index => { track with cursor := track.copies[index]?.getD track.cursor }

/-- Does one thing after another. -/
def run (track : Track) (moves : List Move) : Track := moves.foldl step track

/-! ## Forwards -/

theorem exists_eatIf_eq_skip (cursor : Cursor) (p : Char → Bool) :
    ∃ n, (cursor.eatIf p).2 = cursor.skip n := by
  unfold Cursor.eatIf
  split
  · exact ⟨1, rfl⟩
  · exact ⟨0, rfl⟩

/-- Whatever is done with a cursor, short of going back to a copy, moves it forwards over some of
the text ahead. -/
theorem exists_step_eq_skip (track : Track) {move : Move} (h : ∀ index, move ≠ .restore index) :
    ∃ n, (track.step move).cursor = track.cursor.skip n := by
  cases move with
  | advance => exact ⟨1, rfl⟩
  | eat c => exact exists_eatIf_eq_skip track.cursor (· == c)
  | eatIf p => exact exists_eatIf_eq_skip track.cursor p
  | eatWhile p => exact ⟨(track.cursor.rest.takeWhile p).length, rfl⟩
  | eatText text =>
    show ∃ n, (track.cursor.eatText text).2 = track.cursor.skip n
    unfold Cursor.eatText
    split
    · exact ⟨text.length, rfl⟩
    · exact ⟨0, rfl⟩
  | eatLine => exact ⟨(Text.throughNewline track.cursor.rest).length, rfl⟩
  | eatThrough mark =>
    show ∃ n, (track.cursor.eatThrough mark).2 = track.cursor.skip n
    unfold Cursor.eatThrough
    split
    · exact ⟨_, rfl⟩
    · exact ⟨_, rfl⟩
  | save => exact ⟨0, rfl⟩
  | restore index => exact absurd rfl (h index)

/-! ## Standing -/

/-- The cursor and every copy kept of it stand in one source. -/
structure StandsIn (source : SourceText) (track : Track) : Prop where
  cursor : track.cursor.StandsIn source
  copies : ∀ copy ∈ track.copies, copy.StandsIn source

variable {source : SourceText} {track : Track}

theorem standsIn_track (source : SourceText) : StandsIn source source.track :=
  ⟨Cursor.standsIn_cursor source, fun _ hcopy => absurd hcopy List.not_mem_nil⟩

/-- No step but going back moves the cursor other than forwards, so it goes on standing. -/
theorem StandsIn.cursor_step (h : StandsIn source track) {move : Move}
    (hmove : ∀ index, move ≠ .restore index) : (track.step move).cursor.StandsIn source := by
  obtain ⟨n, hn⟩ := track.exists_step_eq_skip hmove
  rw [hn]
  exact h.cursor.skip n

/-- **One step keeps the cursor and all copies standing**: a move forwards does, and so does going
back to a copy, since the copies stand as well. -/
theorem StandsIn.step (h : StandsIn source track) (move : Move) :
    StandsIn source (track.step move) := by
  cases move with
  | save =>
    refine ⟨h.cursor, fun copy hcopy => ?_⟩
    rcases List.mem_append.1 hcopy with hcopy | hcopy
    · exact h.copies copy hcopy
    · obtain rfl := List.mem_singleton.1 hcopy
      exact h.cursor
  | restore index =>
    -- a copy that was kept stands, and where none was the cursor stays
    refine ⟨?_, h.copies⟩
    show (track.copies[index]?.getD track.cursor).StandsIn source
    cases hcopy : track.copies[index]? with
    | none => exact h.cursor
    | some copy => exact h.copies copy (List.mem_of_getElem? hcopy)
  | _ => exact ⟨h.cursor_step (by simp), h.copies⟩

/-- **Every run keeps the cursor and all copies standing.** -/
theorem StandsIn.run (h : StandsIn source track) (moves : List Move) :
    StandsIn source (track.run moves) := by
  induction moves generalizing track with
  | nil => exact h
  | cons move moves ih => exact ih (h.step move)

end Track

/-- **Places need no recount.** However a cursor is moved from the start of a text, with copies kept
and gone back to in any order, after every step it lies inside the text and its place is the one
counted from the start. Nothing but going back to a copy lowers its offset, and nothing else moves
it at the end of the text. So the places of every lexeme of a scan, and of its error, are the ones
counted from the start. -/
theorem places_agree_with_recount (source : SourceText) :
    (∀ (moves : List Cursor.Move) (track : Track), source.track.run moves = track →
      track.cursor.position ≤ source.length ∧
      track.cursor.location = source.locationAt track.cursor.position ∧
      ∀ move : Cursor.Move, (∀ index, move ≠ .restore index) →
        track.cursor.position ≤ (track.step move).cursor.position ∧
        (track.cursor.position = source.length → (track.step move).cursor = track.cursor)) ∧
    (∀ lexeme ∈ source.scan.lexemes,
      lexeme.span.first = source.locationAt lexeme.span.first.offset ∧
      lexeme.span.last = source.locationAt lexeme.span.last.offset) ∧
    (∀ error, source.scan.error = some error →
      error.location = source.locationAt error.location.offset) := by
  refine ⟨?_, ?_, ?_⟩
  · rintro moves track rfl
    have hs := ((Track.standsIn_track source).run moves).cursor
    refine ⟨hs.position_le, hs.location_eq, fun move hmove => ?_⟩
    -- every other move is so many steps forwards
    obtain ⟨n, hn⟩ := (source.track.run moves).exists_step_eq_skip hmove
    rw [hn]
    constructor
    · rw [Cursor.position_skip]
      exact Nat.le_add_right _ _
    · intro hend
      exact Cursor.skip_of_rest_eq_nil (hs.rest_eq_nil_iff.2 hend) n
  · intro lexeme hlexeme
    obtain ⟨first, -, -, hspan⟩ := SourceText.read?_of_mem_scan hlexeme
    rw [hspan]
    exact ⟨(source.locationAt_offset first).symm, (source.locationAt_offset _).symm⟩
  · rintro ⟨cause, location⟩ herror
    obtain ⟨place, taken, -, rfl⟩ := SourceText.scan_error_eq_some_iff.1 herror
    exact (source.locationAt_offset _).symm

end Lexis
