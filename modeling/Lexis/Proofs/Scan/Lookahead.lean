import Lexis.Proofs.Scan.Tiling
import Lexis.Proofs.Token.Lookahead

/-!
# Texts that go on

Text that is put after a source is seen only from close to the old end: from no further than two
codepoints before it, or from inside the construct that a scan failed on.

- `Cursor.exists_passed_of_mem_scan`: a lexeme ahead lies beyond the piece that is passed first.
- `Cursor.Continued`: two cursors at one place, of which the second has more text ahead.
- `Cursor.Continued.lexemes_iff`, `Cursor.Continued.stop_eq`: early lexemes are the same for both,
  and early errors are of one construct.
- `appended_text_changes_only_the_end`: both together for whole sources.
-/

namespace Lexis

/-- One text after another. -/
instance : Append SourceText where
  append source more := ⟨source.stored ++ more.stored⟩

/-- Text that is put after a source is within reach as far as the source leaves room for it. -/
theorem SourceText.chars_append (source more : SourceText) :
    (source ++ more).chars =
      source.chars ++ more.stored.take (maxLength - source.stored.length) :=
  List.take_append

namespace Cursor

variable {cursor longer : Cursor} {lexeme : Lexeme} {error : ScanError} {piece : Piece}
  {more : List Char}

/-! ## What is ahead lies ahead -/

/-- Passing over a piece moves on by its length. -/
theorem position_skip_of_read? (hpassed : piece.IsPassed)
    (h : Piece.read? cursor.rest = some piece) :
    (cursor.skip piece.length).position = cursor.position + piece.length := by
  rw [position_skip, List.length_take_of_le (Piece.length_le_of_read? hpassed h)]

/-- The lexemes of a scan lie ahead of where it begins. -/
theorem position_le_of_mem_scan (h : lexeme ∈ cursor.scan.lexemes) :
    cursor.position ≤ lexeme.span.first.offset ∧
      lexeme.span.first.offset ≤ lexeme.span.last.offset := by
  obtain ⟨n, -, hspan⟩ := exists_of_mem_scan h
  rw [hspan]
  exact ⟨cursor.position_le_skip n, (cursor.skip n).position_le_skip _⟩

/-- The error of a scan lies ahead of where it begins. -/
theorem position_le_of_error (h : cursor.scan.error = some error) :
    cursor.position ≤ error.location.offset := by
  obtain ⟨n, hn⟩ := cursor.exists_stop_eq_skip
  rw [scan_error, errorAhead?, hn] at h
  split at h
  next cause place taken hread =>
    obtain rfl := Option.some.inj h
    exact (cursor.position_le_skip n).trans ((cursor.skip n).position_le_skip place)
  next => exact absurd h (by simp)

/-- **A scan with a lexeme begins with a piece it passes over**, and the lexeme does not end before
that piece. -/
theorem exists_passed_of_mem_scan (h : lexeme ∈ cursor.scan.lexemes) :
    ∃ piece : Piece, piece.IsPassed ∧ Piece.read? cursor.rest = some piece ∧
      cursor.position + piece.length ≤ lexeme.span.last.offset := by
  -- lexemes behind a piece end behind it
  have hlater : ∀ {piece : Piece}, piece.IsPassed → Piece.read? cursor.rest = some piece →
      lexeme ∈ (cursor.skip piece.length).scan.lexemes →
      cursor.position + piece.length ≤ lexeme.span.last.offset := by
    intro piece hpassed hread hmem
    obtain ⟨hfirst, hlast⟩ := position_le_of_mem_scan hmem
    rw [position_skip_of_read? hpassed hread] at hfirst
    exact hfirst.trans hlast
  -- the first piece decides: past the one that is passed first there is nothing to look for
  cases cursor using reading with
  | finished cursor hread =>
    rw [scan_of_finished hread] at h
    exact absurd h List.not_mem_nil
  | gap cursor text hread =>
    rw [scan_of_gap hread] at h
    exact ⟨.gap text, trivial, hread, hlater trivial hread h⟩
  | token cursor kind text hread =>
    rw [scan_of_token hread] at h
    have hpassed : (Piece.token kind text).IsPassed := trivial
    refine ⟨.token kind text, hpassed, hread, ?_⟩
    rcases List.mem_cons.1 h with rfl | h
    · exact (position_skip_of_read? hpassed hread).ge
    · exact hlater hpassed hread h
  | fault cursor cause place taken hread =>
    rw [scan_of_fault hread] at h
    exact absurd h List.not_mem_nil

/-! ## Cursors with more ahead -/

/-- The second cursor is where the first one is, and has more text ahead. -/
structure Continued (more : List Char) (cursor longer : Cursor) : Prop where
  rest_eq : longer.rest = cursor.rest ++ more
  location_eq : longer.location = cursor.location

theorem Continued.position_eq (h : Continued more cursor longer) :
    longer.position = cursor.position :=
  congrArg Location.offset h.location_eq

/-- **One move over text that both have ahead keeps two cursors so.** -/
theorem Continued.skip {n : Nat} (h : Continued more cursor longer) (hn : n ≤ cursor.rest.length) :
    Continued more (cursor.skip n) (longer.skip n) where
  rest_eq := by rw [rest_skip, rest_skip, h.rest_eq, List.drop_append_of_le_length hn]
  location_eq := by
    rw [location_skip, location_skip, h.rest_eq, h.location_eq, List.take_append_of_le_length hn]

/-- Both read the same gap or token where it ends early. -/
theorem Continued.read?_iff (h : Continued more cursor longer) (hpassed : piece.IsPassed)
    (hlen : piece.length + 2 ≤ cursor.rest.length) :
    Piece.read? longer.rest = some piece ↔ Piece.read? cursor.rest = some piece := by
  rw [h.rest_eq]
  exact Piece.read?_append_iff hpassed hlen

/-! ## Early lexemes -/

/-- Before a lexeme that ends early, whichever of the two scans it is in, both begin with the same
piece. -/
theorem Continued.exists_piece (h : Continued more cursor longer)
    (hlimit : lexeme.span.last.offset + 2 ≤ cursor.position + cursor.rest.length)
    (hmem : lexeme ∈ longer.scan.lexemes ∨ lexeme ∈ cursor.scan.lexemes) :
    ∃ piece : Piece, piece.IsPassed ∧ piece.length ≤ cursor.rest.length ∧
      Piece.read? longer.rest = some piece ∧ Piece.read? cursor.rest = some piece := by
  have hposition := h.position_eq
  rcases hmem with hmem | hmem
  · obtain ⟨piece, hpassed, hread, hle⟩ := exists_passed_of_mem_scan hmem
    exact ⟨piece, hpassed, by omega, hread, (h.read?_iff hpassed (by omega)).1 hread⟩
  · obtain ⟨piece, hpassed, hread, hle⟩ := exists_passed_of_mem_scan hmem
    exact ⟨piece, hpassed, by omega, (h.read?_iff hpassed (by omega)).2 hread, hread⟩

/-- Whether an early lexeme is in both scans is a matter of what comes after a piece that both pass
over: without such a piece it is in neither. -/
theorem Continued.getElem?_iff {index : Nat} (h : Continued more cursor longer)
    (hlimit : lexeme.span.last.offset + 2 ≤ cursor.position + cursor.rest.length)
    (hpiece : ∀ piece : Piece, piece.IsPassed → piece.length ≤ cursor.rest.length →
      Piece.read? longer.rest = some piece → Piece.read? cursor.rest = some piece →
      (longer.scan.lexemes[index]? = some lexeme ↔ cursor.scan.lexemes[index]? = some lexeme)) :
    longer.scan.lexemes[index]? = some lexeme ↔ cursor.scan.lexemes[index]? = some lexeme := by
  by_cases hmem : lexeme ∈ longer.scan.lexemes ∨ lexeme ∈ cursor.scan.lexemes
  · obtain ⟨piece, hpassed, hle, hlonger, hcursor⟩ := h.exists_piece hlimit hmem
    exact hpiece piece hpassed hle hlonger hcursor
  · rw [not_or] at hmem
    exact iff_of_false (fun hat => hmem.1 (List.mem_of_getElem? hat))
      fun hat => hmem.2 (List.mem_of_getElem? hat)

/-- **Early lexemes are the same**, each at its index, whether or not the text goes on. -/
theorem Continued.lexemes_iff (h : Continued more cursor longer)
    (hlimit : lexeme.span.last.offset + 2 ≤ cursor.position + cursor.rest.length) (index : Nat) :
    longer.scan.lexemes[index]? = some lexeme ↔ cursor.scan.lexemes[index]? = some lexeme := by
  -- along the scan of the shorter text, which is the one that may stop too soon
  induction cursor using reading generalizing longer index with
  | finished cursor hread =>
    refine h.getElem?_iff hlimit fun piece hpassed hle hlonger hcursor => ?_
    rw [hread] at hcursor
    exact absurd hcursor (by simp)
  | gap cursor text hread ih =>
    refine h.getElem?_iff hlimit fun piece hpassed hle hlonger hcursor => ?_
    obtain rfl : .gap text = piece := Option.some.inj (hread.symm.trans hcursor)
    rw [scan_of_gap hlonger, scan_of_gap hcursor]
    exact ih (h.skip hle) (hlimit.trans (position_add_length_skip cursor _).ge) index
  | token cursor kind text hread ih =>
    refine h.getElem?_iff hlimit fun piece hpassed hle hlonger hcursor => ?_
    obtain rfl : .token kind text = piece := Option.some.inj (hread.symm.trans hcursor)
    have hafter := h.skip hle
    rw [scan_of_token hlonger, scan_of_token hcursor]
    cases index with
    -- the same token from the same place on
    | zero =>
      have hlocation : (longer.skip text.length).location = (cursor.skip text.length).location :=
        hafter.location_eq
      rw [List.getElem?_cons_zero, List.getElem?_cons_zero, h.location_eq, hlocation]
    | succ index =>
      rw [List.getElem?_cons_succ, List.getElem?_cons_succ]
      exact ih hafter (hlimit.trans (position_add_length_skip cursor _).ge) index
  | fault cursor cause place taken hread =>
    refine h.getElem?_iff hlimit fun piece hpassed hle hlonger hcursor => ?_
    -- a fault is no piece that is passed
    obtain ⟨cause', hfault, -⟩ := exists_fault_of_piece? hread
    obtain rfl : .fault cause' place taken = piece := Option.some.inj (hfault.symm.trans hcursor)
    exact hpassed.elim

/-! ## Early errors -/

/-- On the way to an early error of the longer text both pass over the same pieces. -/
theorem Continued.read?_of_error (h : Continued more cursor longer)
    (hread : Piece.read? longer.rest = some piece) (hpassed : piece.IsPassed)
    (herror : (longer.skip piece.length).scan.error = some error)
    (hlimit : error.location.offset + 2 ≤ cursor.position + cursor.rest.length) :
    piece.length ≤ cursor.rest.length ∧ Piece.read? cursor.rest = some piece := by
  have hle := position_le_of_error herror
  rw [position_skip_of_read? hpassed hread, h.position_eq] at hle
  exact ⟨by omega, (h.read?_iff hpassed (by omega)).1 hread⟩

/-- **An early error of a text that goes on is in the construct that the text failed on before.** -/
theorem Continued.stop_eq (h : Continued more cursor longer)
    (herror : longer.scan.error = some error)
    (hlimit : error.location.offset + 2 ≤ cursor.position + cursor.rest.length) :
    longer.stop.position = cursor.stop.position ∧ cursor.scan.error.isSome = true := by
  -- along the scan of the longer text, which is the one with the error
  induction longer using reading generalizing cursor with
  | finished longer hread =>
    rw [scan_of_finished hread] at herror
    exact absurd herror (by simp)
  | gap longer text hread ih =>
    rw [scan_of_gap hread] at herror
    obtain ⟨hle, hcursor⟩ := h.read?_of_error hread trivial herror hlimit
    rw [stop_of_gap hread, stop_of_gap hcursor, scan_of_gap hcursor]
    exact ih (h.skip hle) herror (hlimit.trans (position_add_length_skip cursor _).ge)
  | token longer kind text hread ih =>
    rw [scan_of_token hread] at herror
    obtain ⟨hle, hcursor⟩ := h.read?_of_error hread trivial herror hlimit
    rw [stop_of_token hread, stop_of_token hcursor, scan_of_token hcursor]
    exact ih (h.skip hle) herror (hlimit.trans (position_add_length_skip cursor _).ge)
  | fault longer cause place taken hread =>
    rw [scan_of_fault hread] at herror
    obtain rfl := Option.some.inj herror
    obtain ⟨cause', hfault, -⟩ := exists_fault_of_piece? hread
    have hplace : place ≤ longer.rest.length := (Piece.means_of_read? hfault).place_le
    have hoffset : (longer.skip place).position = longer.position + place := by
      rw [position_skip, List.length_take_of_le hplace]
    have hearly : place + 2 ≤ cursor.rest.length := by
      have hlimit : (longer.skip place).position + 2 ≤ cursor.position + cursor.rest.length :=
        hlimit
      rw [hoffset, h.position_eq] at hlimit
      omega
    rw [h.rest_eq] at hfault
    -- a fault this early is there without what was appended
    obtain ⟨cause'', place', taken', hcursor⟩ := Piece.exists_fault_of_append hfault hearly
    -- two codepoints are ahead of the shorter text, so that it does not end in a lone prime
    have hahead : ¬cursor.AtCut := fun hcut => by
      rw [hcut.1] at hearly
      exact absurd hearly (by simp)
    rw [← piece?_of_not_atCut hahead] at hcursor
    rw [stop_of_fault hread, stop_of_fault hcursor, scan_of_fault hcursor]
    exact ⟨h.position_eq, rfl⟩

end Cursor

/-- **Text that is appended changes only the end.** A lexeme that ends two codepoints or more before
the end of a source is found at its index, with its kind, text and span, exactly if it is found
there when any text is appended, whether or not either scan meets an error. And where the scan of
the longer source meets an error that lies so early, the scan of the source met one in the construct
that begins at the same place. -/
theorem appended_text_changes_only_the_end (source more : SourceText) :
    (∀ (index : Nat) (lexeme : Lexeme), lexeme.span.last.offset + 2 ≤ source.length →
      (source.scan.lexemes[index]? = some lexeme ↔
        (source ++ more).scan.lexemes[index]? = some lexeme)) ∧
    ∀ error, (source ++ more).scan.error = some error →
      error.location.offset + 2 ≤ source.length →
      source.scan.error.isSome = true ∧ (source ++ more).reach = source.reach := by
  have h : Cursor.Continued _ source.cursor (source ++ more).cursor :=
    ⟨SourceText.chars_append source more, rfl⟩
  have hlength : source.cursor.position + source.cursor.rest.length = source.length :=
    Nat.zero_add _
  constructor
  · intro index lexeme hlexeme
    exact (h.lexemes_iff (hlexeme.trans hlength.ge) index).symm
  · intro error herror hoffset
    exact (h.stop_eq herror (hoffset.trans hlength.ge)).symm

/-- The number ends two codepoints before the old end and stays as it is, whatever comes after the
prime that is not closed. The newline is an error right away, and stays one. -/
theorem appended_text_changes_only_the_end_prime :
    (SourceText.mk ['1', '.', '\'', '2', '\'']).scan.lexemes[0]? =
        some ⟨.decimal, ['1'], ⟨0, 1, 1⟩, ⟨1, 1, 2⟩⟩ ∧
      (SourceText.mk ['1', '\'', '\n', '2', '3']).scan.error.isSome = true := by
  have hnumber := (appended_text_changes_only_the_end ⟨['1', '.', '\'']⟩ ⟨['2', '\'']⟩).1 0
    ⟨.decimal, ['1'], ⟨0, 1, 1⟩, ⟨1, 1, 2⟩⟩ (by decide)
  have herror := (appended_text_changes_only_the_end ⟨['1', '\'', '\n', '2', '3']⟩ ⟨['\'']⟩).2
    ⟨.bareNewlineInLiteral .character, ⟨2, 1, 3⟩⟩ (by decide +kernel) (by decide)
  exact ⟨hnumber.1 (by decide +kernel), herror.1⟩

/-- One codepoint after a lexeme is not enough: a digit makes a point part of the number. -/
example :
    (SourceText.mk ['1', '.']).scan.lexemes[0]? =
        some ⟨.decimal, ['1'], ⟨0, 1, 1⟩, ⟨1, 1, 2⟩⟩ ∧
      (SourceText.mk ['1', '.', '5']).scan.lexemes[0]? =
        some ⟨.decimal, ['1', '.', '5'], ⟨0, 1, 1⟩, ⟨3, 1, 4⟩⟩ := by
  decide +kernel

end Lexis
