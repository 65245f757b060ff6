import Lexis.Lexeme
import Lexis.Proofs.Piece.Meaning
import Lexis.Proofs.Source.Standing

/-!
# How far a scan reaches

A scan reads gaps and tokens until it comes to the end of the text or to a fault. The place where
it comes to rest is where its lexemes and gaps stop.

- `Cursor.AtCut`: the one place where the piece ahead is not read off the text alone.
- `Cursor.reading`: induction along a scan, with one case for each kind of piece that may be ahead.
- `Cursor.scan_of_token`, `Cursor.nextEvent_of_token` and the like: one piece of a scan, and the
  next event, by the piece ahead.
- `Cursor.stop`, `SourceText.reach`: where the lexemes and gaps stop.
- `Spacing`: text that a scan passes over wherever it stands.
- `Cursor.exists_of_mem_scan`: every lexeme was read at a cursor the scan passed.
- `Cursor.scan_error`: the error of a scan is the fault ahead of where it stopped.
-/

namespace Lexis

namespace Cursor

variable {cursor : Cursor}

/-! ## The piece ahead -/

/-- The text ends right here in a prime, and what is out of reach begins with another one. -/
def AtCut (cursor : Cursor) : Prop := cursor.rest = ['\''] ∧ cursor.source.behind = '\''

theorem piece?_of_atCut (h : cursor.AtCut) :
    cursor.piece? = some (.fault .emptyCharacterLiteral 0 1) := by
  rw [piece?, h.1, h.2, Piece.read?_cut]

theorem piece?_of_not_atCut (h : ¬cursor.AtCut) : cursor.piece? = Piece.read? cursor.rest :=
  Piece.read?_behind h

/-- **Gaps, tokens and the end of a text are read off the text**, whatever is stored behind it. -/
theorem piece?_eq_iff {found : Option Piece}
    (h : ∀ cause place taken, found ≠ some (.fault cause place taken)) :
    cursor.piece? = found ↔ Piece.read? cursor.rest = found := by
  by_cases hcut : cursor.AtCut
  · rw [piece?_of_atCut hcut, hcut.1, Piece.read?_prime]
    exact ⟨fun heq => absurd heq.symm (h _ _ _), fun heq => absurd heq.symm (h _ _ _)⟩
  · rw [piece?_of_not_atCut hcut]

theorem piece?_eq_none_iff : cursor.piece? = none ↔ Piece.read? cursor.rest = none :=
  piece?_eq_iff fun _ _ _ h => by cases h

theorem piece?_eq_gap_iff {text : List Char} :
    cursor.piece? = some (.gap text) ↔ Piece.read? cursor.rest = some (.gap text) :=
  piece?_eq_iff fun _ _ _ h => Piece.noConfusion (Option.some.inj h)

theorem piece?_eq_token_iff {kind : Kind} {text : List Char} :
    cursor.piece? = some (.token kind text) ↔ Piece.read? cursor.rest = some (.token kind text) :=
  piece?_eq_iff fun _ _ _ h => Piece.noConfusion (Option.some.inj h)

/-- A fault is found in the text, though not always for the same cause. -/
theorem exists_fault_of_piece? {cause : ScanError.Cause} {place taken : Nat}
    (h : cursor.piece? = some (.fault cause place taken)) :
    ∃ cause', Piece.read? cursor.rest = some (.fault cause' place taken) ∧
      (¬cursor.AtCut → cause' = cause) := by
  by_cases hcut : cursor.AtCut
  · rw [piece?_of_atCut hcut] at h
    cases h
    exact ⟨_, hcut.1 ▸ Piece.read?_prime, fun hnot => absurd hcut hnot⟩
  · rw [piece?_of_not_atCut hcut] at h
    exact ⟨cause, h, fun _ => rfl⟩

/-- **Induction along a scan**: what holds where a scan ends, and holds before a gap or a token
when it holds after it, holds of every cursor. -/
@[elab_as_elim]
theorem reading {motive : Cursor → Prop}
    (finished : ∀ cursor : Cursor, Piece.read? cursor.rest = none → motive cursor)
    (gap : ∀ (cursor : Cursor) (text : List Char), Piece.read? cursor.rest = some (.gap text) →
      motive (cursor.skip text.length) → motive cursor)
    (token : ∀ (cursor : Cursor) (kind : Kind) (text : List Char),
      Piece.read? cursor.rest = some (.token kind text) →
      motive (cursor.skip text.length) → motive cursor)
    (fault : ∀ (cursor : Cursor) (cause : ScanError.Cause) (place taken : Nat),
      cursor.piece? = some (.fault cause place taken) → motive cursor)
    (cursor : Cursor) : motive cursor :=
  match h : cursor.piece? with
  | none => finished cursor (piece?_eq_none_iff.1 h)
  | some (.gap text) =>
    gap cursor text (piece?_eq_gap_iff.1 h)
      (reading finished gap token fault (cursor.skip text.length))
  | some (.token kind text) =>
    token cursor kind text (piece?_eq_token_iff.1 h)
      (reading finished gap token fault (cursor.skip text.length))
  | some (.fault cause place taken) => fault cursor cause place taken h
  termination_by cursor.rest.length
  decreasing_by all_goals exact length_rest_skip_lt h

/-! ## One piece of a scan -/

theorem scan_of_finished (h : Piece.read? cursor.rest = none) : cursor.scan = ⟨[], none⟩ := by
  have hpiece := piece?_eq_none_iff.2 h
  rw [scan]
  split <;> simp_all

theorem scan_of_gap {text : List Char} (h : Piece.read? cursor.rest = some (.gap text)) :
    cursor.scan = (cursor.skip text.length).scan := by
  have hpiece := piece?_eq_gap_iff.2 h
  rw [scan]
  split <;> simp_all

theorem scan_of_token {kind : Kind} {text : List Char}
    (h : Piece.read? cursor.rest = some (.token kind text)) :
    cursor.scan =
      ⟨⟨kind, text, ⟨cursor.location, (cursor.skip text.length).location⟩⟩ ::
        (cursor.skip text.length).scan.lexemes, (cursor.skip text.length).scan.error⟩ := by
  have hpiece := piece?_eq_token_iff.2 h
  rw [scan]
  split <;> simp_all

theorem scan_of_fault {cause : ScanError.Cause} {place taken : Nat}
    (h : cursor.piece? = some (.fault cause place taken)) :
    cursor.scan = ⟨[], some ⟨cause, (cursor.skip place).location⟩⟩ := by
  rw [scan]
  split <;> simp_all

/-! ## The next event, by the piece ahead -/

theorem nextEvent_of_finished (h : Piece.read? cursor.rest = none) :
    cursor.nextEvent = (.finished, cursor) := by
  have hpiece := piece?_eq_none_iff.2 h
  rw [Cursor.nextEvent]
  split <;> simp_all

theorem nextEvent_of_gap {text : List Char} (h : Piece.read? cursor.rest = some (.gap text)) :
    cursor.nextEvent = (cursor.skip text.length).nextEvent := by
  have hpiece := piece?_eq_gap_iff.2 h
  rw [Cursor.nextEvent]
  split <;> simp_all

theorem nextEvent_of_token {kind : Kind} {text : List Char}
    (h : Piece.read? cursor.rest = some (.token kind text)) :
    cursor.nextEvent =
      (.lexeme ⟨kind, text, ⟨cursor.location, (cursor.skip text.length).location⟩⟩,
        cursor.skip text.length) := by
  have hpiece := piece?_eq_token_iff.2 h
  rw [Cursor.nextEvent]
  split <;> simp_all

theorem nextEvent_of_fault {cause : ScanError.Cause} {place taken : Nat}
    (h : cursor.piece? = some (.fault cause place taken)) :
    cursor.nextEvent = (.error ⟨cause, (cursor.skip place).location⟩, cursor.skip taken) := by
  rw [Cursor.nextEvent]
  split <;> simp_all

/-! ## Where a scan stops -/

/-- Where the gaps and tokens ahead of a cursor stop. -/
def stop (cursor : Cursor) : Cursor :=
  match _h : cursor.piece? with
  | some (.gap text) => (cursor.skip text.length).stop
  | some (.token _ text) => (cursor.skip text.length).stop
  | _ => cursor
  termination_by cursor.rest.length
  decreasing_by all_goals exact length_rest_skip_lt _h

theorem stop_of_finished (h : Piece.read? cursor.rest = none) : cursor.stop = cursor := by
  have hpiece := piece?_eq_none_iff.2 h
  rw [stop]
  split <;> simp_all

theorem stop_of_gap {text : List Char} (h : Piece.read? cursor.rest = some (.gap text)) :
    cursor.stop = (cursor.skip text.length).stop := by
  have hpiece := piece?_eq_gap_iff.2 h
  rw [stop]
  split <;> simp_all

theorem stop_of_token {kind : Kind} {text : List Char}
    (h : Piece.read? cursor.rest = some (.token kind text)) :
    cursor.stop = (cursor.skip text.length).stop := by
  have hpiece := piece?_eq_token_iff.2 h
  rw [stop]
  split <;> simp_all

theorem stop_of_fault {cause : ScanError.Cause} {place taken : Nat}
    (h : cursor.piece? = some (.fault cause place taken)) : cursor.stop = cursor := by
  rw [stop]
  split <;> simp_all

/-- A scan only moves forwards, so it stops some way ahead. -/
theorem exists_stop_eq_skip (cursor : Cursor) : ∃ n, cursor.stop = cursor.skip n := by
  induction cursor using reading with
  | finished cursor h => exact ⟨0, stop_of_finished h⟩
  | gap cursor text h ih =>
    obtain ⟨n, hn⟩ := ih
    exact ⟨text.length + n, by rw [stop_of_gap h, hn, skip_skip]⟩
  | token cursor kind text h ih =>
    obtain ⟨n, hn⟩ := ih
    exact ⟨text.length + n, by rw [stop_of_token h, hn, skip_skip]⟩
  | fault cursor cause place taken h => exact ⟨0, stop_of_fault h⟩

/-- The error that a fault right ahead of a cursor is. -/
def errorAhead? (cursor : Cursor) : Option ScanError :=
  match cursor.piece? with
  | some (.fault cause place _) => some ⟨cause, (cursor.skip place).location⟩
  | _ => none

/-- The error of a scan is the fault ahead of where its lexemes and gaps stop. -/
theorem scan_error (cursor : Cursor) : cursor.scan.error = cursor.stop.errorAhead? := by
  induction cursor using reading with
  | finished cursor h =>
    rw [scan_of_finished h, stop_of_finished h, errorAhead?, piece?_eq_none_iff.2 h]
  | gap cursor text h ih => rw [scan_of_gap h, stop_of_gap h, ih]
  | token cursor kind text h ih => rw [scan_of_token h, stop_of_token h, ih]
  | fault cursor cause place taken h => rw [scan_of_fault h, stop_of_fault h, errorAhead?, h]

/-- A scan stops before nothing but the end of the text or a fault. -/
theorem finished_or_fault_of_stop (cursor : Cursor) :
    cursor.stop.rest = [] ∨
      ∃ cause place taken, cursor.stop.piece? = some (.fault cause place taken) := by
  induction cursor using reading with
  | finished cursor h =>
    rw [stop_of_finished h]
    exact .inl (Piece.read?_eq_none_iff.1 h)
  | gap cursor text h ih =>
    rw [stop_of_gap h]
    exact ih
  | token cursor kind text h ih =>
    rw [stop_of_token h]
    exact ih
  | fault cursor cause place taken h =>
    rw [stop_of_fault h]
    exact .inr ⟨cause, place, taken, h⟩

end Cursor

/-! ## Text before tokens -/

/-- Text that may stand before a token: spaces, closed block comments, and line comments with their
newlines. Each of them is a gap whatever comes after it. -/
inductive Spacing : List Char → Prop
  | nil : Spacing []
  | append {gap rest : List Char} (hgap : ∀ after, Piece.Skipped gap after) (h : Spacing rest) :
    Spacing (gap ++ rest)

namespace Spacing

variable {gap after : List Char} {cursor : Cursor}

theorem of_spaces (n : Nat) : Spacing (List.replicate n ' ') := by
  induction n with
  | zero => exact .nil
  | succ n ih =>
    rw [List.replicate_succ]
    exact .append .space ih

/-- **A scan passes over spacing**: it finds what it finds behind it, and stops where it stops. -/
theorem passed (h : Spacing gap) (hrest : cursor.rest = gap ++ after) :
    cursor.scan = (cursor.skip gap.length).scan ∧ cursor.stop = (cursor.skip gap.length).stop := by
  induction h generalizing cursor with
  | nil => exact ⟨rfl, rfl⟩
  | @append gap rest hgap h ih =>
    rw [List.append_assoc] at hrest
    have hread : Piece.read? cursor.rest = some (.gap gap) := by
      rw [hrest]
      exact Piece.read?_of_skipped (hgap _)
    have hafter := ih (Cursor.rest_skip_of_eq hrest)
    rw [Cursor.skip_skip, ← List.length_append] at hafter
    rwa [Cursor.scan_of_gap hread, Cursor.stop_of_gap hread]

end Spacing

namespace Cursor

variable {cursor : Cursor}

/-! ## The lexemes of a scan -/

/-- Every lexeme of a scan was read at a cursor that the scan passed, and stands there. -/
theorem exists_of_mem_scan {lexeme : Lexeme} (h : lexeme ∈ cursor.scan.lexemes) :
    ∃ n, Piece.read? (cursor.skip n).rest = some (.token lexeme.kind lexeme.text) ∧
      lexeme.span =
        ⟨(cursor.skip n).location, ((cursor.skip n).skip lexeme.text.length).location⟩ := by
  induction cursor using reading with
  | finished cursor hr =>
    rw [scan_of_finished hr] at h
    exact absurd h List.not_mem_nil
  | gap cursor text hr ih =>
    rw [scan_of_gap hr] at h
    obtain ⟨n, hn⟩ := ih h
    rw [skip_skip] at hn
    exact ⟨text.length + n, hn⟩
  | token cursor kind text hr ih =>
    rw [scan_of_token hr] at h
    rcases List.mem_cons.1 h with rfl | h
    · exact ⟨0, hr, rfl⟩
    · obtain ⟨n, hn⟩ := ih h
      rw [skip_skip] at hn
      exact ⟨text.length + n, hn⟩
  | fault cursor cause place taken hr =>
    rw [scan_of_fault hr] at h
    exact absurd h List.not_mem_nil

end Cursor

namespace SourceText

variable {source : SourceText}

/-- The offset where the lexemes and gaps of a text stop. -/
def reach (source : SourceText) : Nat := source.cursor.stop.position

/-- A scan stops at a cursor that stands in its text. -/
theorem standsIn_stop (source : SourceText) : Cursor.StandsIn source source.cursor.stop := by
  obtain ⟨n, hn⟩ := source.cursor.exists_stop_eq_skip
  rw [hn]
  exact (Cursor.standsIn_cursor source).skip n

theorem reach_le (source : SourceText) : source.reach ≤ source.length :=
  source.standsIn_stop.position_le

/-- A lexeme of a text is the token that the text begins with at the lexeme's first offset, and its
places are counted from the start of the text. -/
theorem read?_of_mem_scan {lexeme : Lexeme} (h : lexeme ∈ source.scan.lexemes) :
    ∃ first ≤ source.length,
      Piece.read? (source.chars.drop first) = some (.token lexeme.kind lexeme.text) ∧
      lexeme.span =
        ⟨source.locationAt first, source.locationAt (first + lexeme.text.length)⟩ := by
  obtain ⟨n, hread, hspan⟩ := Cursor.exists_of_mem_scan h
  have hs : Cursor.StandsIn source (source.cursor.skip n) :=
    (Cursor.standsIn_cursor source).skip n
  refine ⟨(source.cursor.skip n).position, hs.position_le, ?_, ?_⟩
  · rw [← hread, hs.rest_eq]
  · rw [hspan, hs.location_skip, hs.location_eq]

/-- What is ahead where a scan stops. -/
theorem piece?_stop (source : SourceText) :
    source.cursor.stop.piece? = Piece.read? (source.chars.drop source.reach) source.behind := by
  have hs := source.standsIn_stop
  rw [Cursor.piece?, hs.rest_eq, hs.source_eq]
  rfl

/-- The error of a text, read off the text from where its lexemes and gaps stop. -/
theorem scan_error_eq_some_iff {cause : ScanError.Cause} {location : Location} :
    source.scan.error = some ⟨cause, location⟩ ↔
      ∃ place taken,
        Piece.read? (source.chars.drop source.reach) source.behind =
          some (.fault cause place taken) ∧
        location = source.locationAt (source.reach + place) := by
  have hs := source.standsIn_stop
  have hplace : ∀ place, (source.cursor.stop.skip place).location =
      source.locationAt (source.reach + place) := hs.location_skip
  rw [SourceText.scan, Cursor.scan_error, Cursor.errorAhead?, piece?_stop]
  constructor
  · intro h
    split at h
    · next cause' place taken hread =>
      obtain ⟨rfl, rfl⟩ : cause' = cause ∧ (source.cursor.stop.skip place).location = location := by
        simpa using h
      exact ⟨place, taken, hread, hplace place⟩
    · exact absurd h (by simp)
  · rintro ⟨place, taken, hread, rfl⟩
    rw [hread, ← hplace place]

/-- A text has no error exactly where its lexemes and gaps go on to its end. -/
theorem scan_error_eq_none_iff :
    source.scan.error = none ↔ source.reach = source.length := by
  rw [SourceText.scan, Cursor.scan_error, Cursor.errorAhead?]
  have hend := source.standsIn_stop.rest_eq_nil_iff
  constructor
  · intro h
    rcases source.cursor.finished_or_fault_of_stop with hnil | ⟨cause, place, taken, hread⟩
    · exact hend.1 hnil
    · rw [hread] at h
      exact absurd h (by simp)
  · intro h
    have hnone := Cursor.piece?_eq_none_iff.2 (Piece.read?_eq_none_iff.2 (hend.2 h))
    rw [hnone]

end SourceText

end Lexis
