import Lexis.Proofs.Scan.Errors

/-!
# Scans cover their source

The tiles of a scan leave nothing out: between its lexemes a source has gaps alone, and gaps alone
are scanned to nothing.

- `Blank`: a text of gaps alone.
- `stretches`: what lies between lexemes.
- `SourceText.Tiles.blank_of_mem`: between the lexemes there is nothing that a scan would find.
- `scan_tiles_source`: all of it together.
-/

namespace Lexis

/-! ## Between the lexemes -/

/-- A text of gaps alone. -/
inductive Blank : List Char → Prop
  | nil : Blank []
  | append {text rest : List Char} (hskipped : Piece.Skipped text rest) (h : Blank rest) :
    Blank (text ++ rest)

/-- **Gaps alone are scanned to nothing.** -/
theorem Blank.scan_eq {cursor : Cursor} {text : List Char} (h : Blank text)
    (hrest : cursor.rest = text) : cursor.scan = ⟨[], none⟩ := by
  induction h generalizing cursor with
  | nil => exact Cursor.scan_of_finished (Piece.read?_eq_none_iff.2 hrest)
  | @append text rest hskipped h ih =>
    have hread : Piece.read? cursor.rest = some (.gap text) := by
      rw [hrest]
      exact Piece.read?_of_skipped hskipped
    rw [Cursor.scan_of_gap hread]
    refine ih ?_
    rw [Cursor.rest_skip, hrest, List.drop_left]

/-- The stretches between lexemes, as pairs of offsets: from an offset to the first lexeme, from
each lexeme to the next, and from the last one to an offset. -/
def stretches (first : Nat) (lexemes : List Lexeme) (stop : Nat) : List (Nat × Nat) :=
  match lexemes with
  | [] => [(first, stop)]
  | lexeme :: lexemes =>
    (first, lexeme.span.first.offset) :: stretches lexeme.span.last.offset lexemes stop

/-- Where the first stretch begins matters to no other stretch. -/
theorem mem_stretches {first last stop : Nat} {lexemes : List Lexeme} {stretch : Nat × Nat}
    (h : stretch ∈ stretches first lexemes stop) :
    (stretch.1 = first ∧ (last, stretch.2) ∈ stretches last lexemes stop) ∨
      stretch ∈ stretches last lexemes stop := by
  cases lexemes with
  | nil =>
    obtain rfl := List.mem_singleton.1 h
    exact .inl ⟨rfl, List.mem_cons_self⟩
  | cons lexeme lexemes =>
    rcases List.mem_cons.1 h with rfl | h
    · exact .inl ⟨rfl, List.mem_cons_self⟩
    · exact .inr (List.mem_cons_of_mem _ h)

namespace SourceText

variable {source : SourceText} {first last stop : Nat} {tiles : List Tile}

/-- A gap before a blank stretch makes a longer one. -/
theorem blank_slice {next : Nat} (hlt : first < last) (hlast : last ≤ next)
    (hnext : next ≤ source.length)
    (hskipped : Piece.Skipped (source.slice first last) (source.chars.drop last))
    (h : Blank (source.slice last next)) : Blank (source.slice first next) := by
  rw [← slice_append_slice (Nat.le_of_lt hlt) hlast hnext]
  exact .append (hskipped.of_isPrefix (source.slice_isPrefix_drop last next)) h

/-- **Between the lexemes of its tiles a source is blank.** -/
theorem Tiles.blank_of_mem (h : source.Tiles first tiles stop) (hstop : stop ≤ source.length) :
    ∀ stretch ∈ stretches first (Tile.lexemes tiles) stop,
      stretch.1 ≤ stretch.2 ∧ stretch.2 ≤ source.length ∧
        Blank (source.slice stretch.1 stretch.2) := by
  have hempty (offset : Nat) : Blank (source.slice offset offset) := by
    rw [slice_self]
    exact .nil
  induction h with
  | nil offset =>
    intro stretch hstretch
    obtain rfl := List.mem_singleton.1 hstretch
    exact ⟨Nat.le_refl offset, hstop, hempty offset⟩
  | @cons first middle stop tile tiles hlies h ih =>
    cases tile with
    | gap start last =>
      obtain ⟨rfl, rfl, hlt, hle, hskipped⟩ := hlies
      intro stretch hstretch
      -- the gap comes before the first of the stretches after it, and the others stay as they are
      rcases mem_stretches hstretch with ⟨hfirst, hmem⟩ | hmem
      · obtain ⟨hlast, hnext, hblank⟩ := ih hstop _ hmem
        rw [hfirst]
        exact ⟨(Nat.le_of_lt hlt).trans hlast, hnext, blank_slice hlt hlast hnext hskipped hblank⟩
      · exact ih hstop stretch hmem
    | lexeme found =>
      have hlt := hlies.lt
      have hle := h.le
      obtain ⟨-, rfl, rfl⟩ := hlies
      intro stretch hstretch
      -- right before a lexeme the stretch is empty
      rcases List.mem_cons.1 hstretch with rfl | hstretch
      · refine ⟨Nat.le_refl _, ?_, hempty _⟩
        show found.span.first.offset ≤ source.length
        omega
      · exact ih hstop stretch hstretch

end SourceText

/-- **A scan tiles its source.** It goes on to the end of the text where it has no error, and
otherwise to the first codepoint of the malformed construct that the error is about. Up to there
the text is cut into lexemes of the scan and skipped gaps, one after another, and in one way only.
The lexemes among the tiles are those of the scan in order, so they are not empty, lie inside the
text and do not overlap; and every stretch between them, scanned by itself, has neither a lexeme
nor an error. -/
theorem scan_tiles_source (source : SourceText) :
    (source.scan.error = none → source.reach = source.length) ∧
    (∀ error, source.scan.error = some error →
      ∃ place cause, Piece.Malformed (source.chars.drop source.reach) place cause ∧
        error.location = source.locationAt (source.reach + place) ∧
        (¬source.EndsInCut → cause = error.cause)) ∧
    (∃ tiles, source.Tiles 0 tiles source.reach ∧ Tile.lexemes tiles = source.scan.lexemes ∧
      ∀ other, source.Tiles 0 other source.reach → other = tiles) ∧
    source.reach ≤ source.length ∧
    (∀ lexeme ∈ source.scan.lexemes,
      lexeme.span.first.offset < lexeme.span.last.offset ∧
      lexeme.span.last.offset ≤ source.reach ∧ source.contents lexeme.span = lexeme.text) ∧
    (source.scan.lexemes.Pairwise fun a b => a.span.last.offset ≤ b.span.first.offset) ∧
    (∀ stretch ∈ stretches 0 source.scan.lexemes source.reach,
      (SourceText.mk (source.slice stretch.1 stretch.2)).scan = ⟨[], none⟩) := by
  obtain ⟨tiles, htiles, hlexemes⟩ := source.exists_tiles_reach
  have hblank := htiles.blank_of_mem source.reach_le
  have hbounds := htiles.bounds
  have hpairwise := htiles.pairwise
  rw [hlexemes] at hblank hbounds hpairwise
  -- what is known of the tiles is said of the lexemes among them
  refine ⟨SourceText.scan_error_eq_none_iff.1, ?_, ?_, source.reach_le, ?_, hpairwise, ?_⟩
  · exact fun error herror => SourceText.exists_malformed_of_scan_error herror
  · exact ⟨tiles, htiles, hlexemes, fun other hother => htiles.unique hother⟩
  · intro lexeme hlexeme
    obtain ⟨-, hlt, hle⟩ := hbounds lexeme hlexeme
    exact ⟨hlt, hle, (SourceText.standsIn_of_mem_scan hlexeme).contents_eq⟩
  · -- a stretch is part of the source, so all of it is within reach
    intro stretch hstretch
    have hle := (source.slice_isPrefix_drop stretch.1 stretch.2).length_le
    rw [List.length_drop] at hle
    refine (hblank stretch hstretch).2.2.scan_eq (SourceText.chars_mk ?_)
    exact hle.trans ((Nat.sub_le _ _).trans source.length_le)

end Lexis
