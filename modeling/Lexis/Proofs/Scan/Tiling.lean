import Lexis.Proofs.Scan.Lexemes

/-!
# Scans tile their source

Up to where a scan stops, the source is cut into the lexemes of the scan and into skipped gaps. No
codepoint is left out or taken twice, and there is no other way to cut it.

- `Tile`: a gap or a lexeme; `Tile.LiesAt` says where one lies.
- `SourceText.Tiles`: consecutive tiles between two offsets.
- `SourceText.Tiles.unique`: there is one way to lay them.
- `SourceText.exists_tiles`: a scan lays tiles up to where it stops.
- `SourceText.Tiles.bounds`, `SourceText.Tiles.pairwise`: the lexemes among the tiles.
- `SourceText.not_liesAt_reach`: where a scan stops no further tile lies.
-/

namespace Lexis

/-! ## Slices -/

namespace SourceText

variable {source : SourceText} {first middle last : Nat}

theorem slice_self (source : SourceText) (first : Nat) : source.slice first first = [] := by
  rw [slice, List.drop_eq_nil_iff]
  exact List.length_take_le first source.chars

/-- From an offset on, a text is a slice and the text from the end of the slice on. -/
theorem slice_append_drop (hfirst : first ≤ last) (hlast : last ≤ source.length) :
    source.slice first last ++ source.chars.drop last = source.chars.drop first := by
  have hlen : first ≤ (source.chars.take last).length := by
    rw [List.length_take_of_le hlast]
    exact hfirst
  rw [slice, ← List.drop_append_of_le_length hlen, List.take_append_drop]

/-- A slice is a beginning of the text from its first offset on. -/
theorem slice_isPrefix_drop (source : SourceText) (first last : Nat) :
    source.slice first last <+: source.chars.drop first := by
  rw [slice, List.drop_take]
  exact List.take_prefix _ _

theorem slice_append_slice (hfirst : first ≤ middle) (hmiddle : middle ≤ last)
    (hlast : last ≤ source.length) :
    source.slice first middle ++ source.slice middle last = source.slice first last := by
  have h := slice_append_drop hfirst (hmiddle.trans hlast)
  rw [← slice_append_drop hmiddle hlast, ← slice_append_drop (hfirst.trans hmiddle) hlast,
    ← List.append_assoc] at h
  exact List.append_cancel_right h

/-- What the text has from an offset on is the slice of that length. -/
theorem slice_of_isPrefix {text : List Char} (h : text <+: source.chars.drop first) :
    source.slice first (first + text.length) = text := by
  rw [slice, List.drop_take, Nat.add_sub_cancel_left]
  exact (List.prefix_iff_eq_take.1 h).symm

theorem length_slice (hlast : last ≤ source.length) :
    (source.slice first last).length = last - first := by
  rw [slice, List.length_drop, List.length_take_of_le hlast]

end SourceText

/-! ## Tiles -/

/-- A stretch of a text that is skipped, or a lexeme. -/
inductive Tile where
  | gap (first last : Nat)
  | lexeme (lexeme : Lexeme)
  deriving DecidableEq, Repr

namespace Tile

/-- The tile lies between two offsets: it is the stretch there, which is not empty and is skipped
where it stands, or it is one of the scan's lexemes, and covers just that stretch. -/
def LiesAt (source : SourceText) (first last : Nat) : Tile → Prop
  | gap start stop => start = first ∧ stop = last ∧ first < last ∧ last ≤ source.length ∧
      Piece.Skipped (source.slice first last) (source.chars.drop last)
  | lexeme found => found ∈ source.scan.lexemes ∧
      found.span.first.offset = first ∧ found.span.last.offset = last

/-- The piece that is read where a tile lies. -/
def piece (source : SourceText) : Tile → Piece
  | gap first last => .gap (source.slice first last)
  | lexeme found => .token found.kind found.text

/-- The lexemes among tiles. -/
def lexemes : List Tile → List Lexeme
  | [] => []
  | gap _ _ :: tiles => lexemes tiles
  | lexeme found :: tiles => found :: lexemes tiles

variable {source : SourceText} {first last : Nat} {tile : Tile}

theorem LiesAt.read?_eq (h : tile.LiesAt source first last) :
    Piece.read? (source.chars.drop first) = some (tile.piece source) := by
  cases tile with
  | gap start stop =>
    obtain ⟨rfl, rfl, hlt, hle, hskipped⟩ := h
    rw [← SourceText.slice_append_drop (Nat.le_of_lt hlt) hle]
    exact Piece.read?_of_skipped hskipped
  | lexeme found =>
    obtain ⟨hmem, rfl, rfl⟩ := h
    exact (SourceText.standsIn_of_mem_scan hmem).read?_eq

theorem LiesAt.last_eq (h : tile.LiesAt source first last) :
    last = first + (tile.piece source).length := by
  cases tile with
  | gap start stop =>
    obtain ⟨rfl, rfl, hlt, hle, -⟩ := h
    show stop = start + (source.slice start stop).length
    rw [SourceText.length_slice hle]
    omega
  | lexeme found =>
    obtain ⟨hmem, rfl, rfl⟩ := h
    exact (SourceText.standsIn_of_mem_scan hmem).last_offset

/-- Tiles are not empty. -/
theorem LiesAt.lt (h : tile.LiesAt source first last) : first < last := by
  have hpos := Piece.length_pos_of_read? h.read?_eq
  have hlast := h.last_eq
  omega

/-- **One tile lies at an offset**: what is read there decides on the tile, and on how far it goes.
-/
theorem LiesAt.unique {other : Tile} {last' : Nat} (h : tile.LiesAt source first last)
    (h' : other.LiesAt source first last') : other = tile ∧ last' = last := by
  -- the piece tells a gap from a lexeme and says how long it is
  have hpiece : other.piece source = tile.piece source :=
    Option.some.inj (h'.read?_eq.symm.trans h.read?_eq)
  have hlast : last' = last := by
    rw [h'.last_eq, h.last_eq, hpiece]
  refine ⟨?_, hlast⟩
  cases tile with
  | gap start stop =>
    cases other with
    | gap start' stop' =>
      obtain ⟨rfl, rfl, -⟩ := h
      obtain ⟨rfl, rfl, -⟩ := h'
      rw [hlast]
    | lexeme found' => exact absurd hpiece (by simp [piece])
  | lexeme found =>
    cases other with
    | gap start' stop' => exact absurd hpiece (by simp [piece])
    | lexeme found' =>
      -- lexemes of one scan at one place are one
      obtain ⟨hmem, hfirst, -⟩ := h
      obtain ⟨hmem', hfirst', -⟩ := h'
      have hs := SourceText.standsIn_of_mem_scan hmem
      rw [hs.eq_of_offset_eq (SourceText.standsIn_of_mem_scan hmem') (hfirst'.trans hfirst.symm)]

end Tile

/-- The tiles lie one after another between two offsets. -/
inductive SourceText.Tiles (source : SourceText) : Nat → List Tile → Nat → Prop
  | nil (offset : Nat) : Tiles source offset [] offset
  | cons {first middle last : Nat} {tile : Tile} {tiles : List Tile}
    (hlies : tile.LiesAt source first middle) (h : Tiles source middle tiles last) :
    Tiles source first (tile :: tiles) last

namespace SourceText

variable {source : SourceText} {first last : Nat} {tiles : List Tile}

theorem Tiles.le (h : source.Tiles first tiles last) : first ≤ last := by
  induction h with
  | nil offset => exact Nat.le_refl offset
  | cons hlies h ih => exact (Nat.le_of_lt hlies.lt).trans ih

/-- **Between two offsets there is one way to lay tiles.** -/
theorem Tiles.unique {other : List Tile} (h : source.Tiles first tiles last)
    (h' : source.Tiles first other last) : other = tiles := by
  induction h generalizing other with
  | nil offset =>
    cases h' with
    | nil => rfl
    | cons hlies' h' => exact absurd h'.le (Nat.not_le_of_lt hlies'.lt)
  | cons hlies h ih =>
    cases h' with
    | nil => exact absurd h.le (Nat.not_le_of_lt hlies.lt)
    | cons hlies' h' =>
      obtain ⟨rfl, rfl⟩ := hlies.unique hlies'
      rw [ih h']

/-! ## A scan lays tiles -/

/-- A cursor that passes over a text ahead of it moves on by the length of the text. -/
theorem position_skip_of_isPrefix {cursor : Cursor} {text : List Char}
    (h : text <+: cursor.rest) :
    (cursor.skip text.length).position = cursor.position + text.length := by
  rw [Cursor.position_skip, ← List.prefix_iff_eq_take.1 h]

/-- A gap that is read at a cursor lies between the cursor and the cursor after it. -/
theorem liesAt_gap {cursor : Cursor} {text : List Char} (hs : cursor.StandsIn source)
    (hread : Piece.read? cursor.rest = some (.gap text)) :
    (Tile.gap cursor.position (cursor.skip text.length).position).LiesAt source cursor.position
      (cursor.skip text.length).position := by
  obtain ⟨rest, hrest, hskipped⟩ := Piece.read?_eq_gap_iff.1 hread
  have hpre : text <+: cursor.rest := ⟨rest, hrest.symm⟩
  have hpos := position_skip_of_isPrefix hpre
  have hafter := hs.skip text.length
  have hdrop : source.chars.drop (cursor.skip text.length).position = rest := by
    rw [← hafter.rest_eq, Cursor.rest_skip, hrest, List.drop_left]
  refine ⟨rfl, rfl, ?_, hafter.position_le, ?_⟩
  · have hlen := hskipped.length_pos
    omega
  · rw [hdrop, hpos, slice_of_isPrefix (hs.rest_eq ▸ hpre)]
    exact hskipped

/-- **A scan lays tiles from any of its cursors to where it stops**, and their lexemes are those of
the scan. -/
theorem exists_tiles {cursor : Cursor} (hs : cursor.StandsIn source)
    (hsub : ∀ lexeme ∈ cursor.scan.lexemes, lexeme ∈ source.scan.lexemes) :
    ∃ tiles, source.Tiles cursor.position tiles cursor.stop.position ∧
      Tile.lexemes tiles = cursor.scan.lexemes := by
  induction cursor using Cursor.reading with
  | finished cursor hread =>
    rw [Cursor.stop_of_finished hread, Cursor.scan_of_finished hread]
    exact ⟨[], .nil _, rfl⟩
  | gap cursor text hread ih =>
    rw [Cursor.scan_of_gap hread] at hsub ⊢
    rw [Cursor.stop_of_gap hread]
    obtain ⟨tiles, htiles, hlexemes⟩ := ih (hs.skip _) hsub
    exact ⟨_, .cons (liesAt_gap hs hread) htiles, hlexemes⟩
  | token cursor kind text hread ih =>
    -- the token is itself a lexeme of the scan, since all lexemes ahead of the cursor are
    rw [Cursor.scan_of_token hread] at hsub ⊢
    rw [Cursor.stop_of_token hread]
    obtain ⟨tiles, htiles, hlexemes⟩ :=
      ih (hs.skip _) fun lexeme hlexeme => hsub lexeme (List.mem_cons_of_mem _ hlexeme)
    have hmem := hsub _ List.mem_cons_self
    refine ⟨.lexeme _ :: tiles, .cons ⟨hmem, rfl, rfl⟩ htiles, ?_⟩
    rw [← hlexemes]
    rfl
  | fault cursor cause place taken hread =>
    -- no tile is laid on a fault
    rw [Cursor.stop_of_fault hread, Cursor.scan_of_fault hread]
    exact ⟨[], .nil _, rfl⟩

/-- The tiles of a whole scan. -/
theorem exists_tiles_reach (source : SourceText) :
    ∃ tiles, source.Tiles 0 tiles source.reach ∧ Tile.lexemes tiles = source.scan.lexemes :=
  exists_tiles (Cursor.standsIn_cursor source) fun _ hlexeme => hlexeme

/-- Where a scan stops no further tile lies: nothing is read there, or a fault is. -/
theorem not_liesAt_reach (source : SourceText) (tile : Tile) (last : Nat) :
    ¬tile.LiesAt source source.reach last := by
  intro h
  have hread := h.read?_eq
  have hrest : source.cursor.stop.rest = source.chars.drop source.reach :=
    source.standsIn_stop.rest_eq
  rw [← hrest] at hread
  rcases source.cursor.finished_or_fault_of_stop with hnil | ⟨cause, place, taken, hfault⟩
  · rw [hnil] at hread
    exact absurd hread (by simp [Piece.read?])
  · -- what is stored behind the text may change the cause of a fault, and makes it no other piece
    obtain ⟨cause', hfault, -⟩ := Cursor.exists_fault_of_piece? hfault
    rw [hfault] at hread
    cases tile with
    | gap start stop => exact absurd hread (by simp [Tile.piece])
    | lexeme found => exact absurd hread (by simp [Tile.piece])

/-! ## The lexemes among the tiles -/

/-- Lexemes lie between the offsets that their tiles are laid between. -/
theorem Tiles.bounds (h : source.Tiles first tiles last) :
    ∀ lexeme ∈ Tile.lexemes tiles, first ≤ lexeme.span.first.offset ∧
      lexeme.span.first.offset < lexeme.span.last.offset ∧ lexeme.span.last.offset ≤ last := by
  induction h with
  | nil offset =>
    intro lexeme hlexeme
    exact absurd hlexeme List.not_mem_nil
  | @cons first middle last tile tiles hlies h ih =>
    have hlt := hlies.lt
    have hafter : ∀ lexeme ∈ Tile.lexemes tiles, first ≤ lexeme.span.first.offset ∧
        lexeme.span.first.offset < lexeme.span.last.offset ∧
        lexeme.span.last.offset ≤ last := by
      intro lexeme hlexeme
      obtain ⟨hfirst, hlast⟩ := ih lexeme hlexeme
      exact ⟨(Nat.le_of_lt hlt).trans hfirst, hlast⟩
    cases tile with
    | gap start stop => exact hafter
    | lexeme found =>
      obtain ⟨-, rfl, rfl⟩ := hlies
      intro lexeme hlexeme
      rcases List.mem_cons.1 hlexeme with rfl | hlexeme
      · exact ⟨Nat.le_refl _, hlt, h.le⟩
      · exact hafter lexeme hlexeme

/-- Lexemes lie one after another, and none overlaps another. -/
theorem Tiles.pairwise (h : source.Tiles first tiles last) :
    (Tile.lexemes tiles).Pairwise fun a b => a.span.last.offset ≤ b.span.first.offset := by
  induction h with
  | nil offset => exact .nil
  | @cons first middle last tile tiles hlies h ih =>
    cases tile with
    | gap start stop => exact ih
    | lexeme found =>
      obtain ⟨-, rfl, rfl⟩ := hlies
      exact .cons (fun other hother => (h.bounds other hother).1) ih

end SourceText

end Lexis
