import Lexis.Proofs.Scan.Lexemes

/-!
# Scans that are begun again

A scan keeps nothing of what is behind it. From wherever it has come to, also beyond an error, it
goes on as a scan of the text ahead would begin, with places that are counted from further back.

- `Location.shift`: a place in a text, counted from where that text itself begins.
- `Cursor.Shifted`: two cursors before one text, whose places differ by what came before it.
- `Cursor.Shifted.skip`, `Cursor.Shifted.nextEvent`: one move and one event keep them so.
- `Scanner.events`, `Scanner.after`: calls one after another, and the scanner after them.
- `scan_goes_on_afresh`: all of it together.
-/

namespace Lexis

/-! ## Places counted from further back -/

namespace Location

/-- The place that `place` is when the text it is counted in begins at `origin`. Lines go on from
the line of `origin`, and on the first of them columns go on from its column. -/
def shift (origin place : Location) : Location where
  offset := place.offset + origin.offset
  line := place.line + (origin.line - 1)
  column := if place.line = 1 then place.column + (origin.column - 1) else place.column

/-- A place on a page: lines and columns count from one. -/
structure OnPage (place : Location) : Prop where
  line_pos : 1 ≤ place.line
  column_pos : 1 ≤ place.column

theorem onPage_start : start.OnPage := ⟨Nat.le_refl 1, Nat.le_refl 1⟩

variable {origin place : Location}

theorem OnPage.step (h : place.OnPage) (c : Char) : (place.step c).OnPage := by
  unfold Location.step
  split
  · exact ⟨Nat.le_succ_of_le h.line_pos, Nat.le_refl 1⟩
  · exact ⟨h.line_pos, Nat.le_succ_of_le h.column_pos⟩

theorem OnPage.after (h : place.OnPage) (text : List Char) : (place.after text).OnPage := by
  induction text generalizing place with
  | nil => exact h
  | cons c text ih => exact ih (h.step c)

/-- The place where a text begins is `origin` itself. -/
theorem shift_start (h : origin.OnPage) : origin.shift start = origin := by
  obtain ⟨offset, line, column⟩ := origin
  obtain ⟨hline, hcolumn⟩ := h
  simp only [shift, start, mk.injEq, if_true]
  dsimp only at hline hcolumn
  omega

/-- A step does the same wherever places are counted from: after a newline the column says nothing
of `origin` any more, and before it the line is still the first. -/
theorem shift_step (h : place.OnPage) (c : Char) :
    origin.shift (place.step c) = (origin.shift place).step c := by
  have hline := h.line_pos
  by_cases hc : c = '\n'
  · have hlater : place.line + 1 ≠ 1 := by omega
    simp only [step, shift, if_pos hc, if_neg hlater, mk.injEq]
    exact ⟨by omega, by omega, trivial⟩
  · simp only [step, shift, if_neg hc, mk.injEq]
    refine ⟨by omega, trivial, ?_⟩
    split <;> omega

theorem shift_after (h : place.OnPage) (text : List Char) :
    origin.shift (place.after text) = (origin.shift place).after text := by
  induction text generalizing place with
  | nil => rfl
  | cons c text ih => rw [after_cons, after_cons, ih (h.step c), shift_step h]

end Location

/-- A lexeme of a text that begins at `origin`. -/
def Lexeme.shift (origin : Location) (lexeme : Lexeme) : Lexeme :=
  ⟨lexeme.kind, lexeme.text, ⟨origin.shift lexeme.span.first, origin.shift lexeme.span.last⟩⟩

/-- An error of a text that begins at `origin`. -/
def ScanError.shift (origin : Location) (error : ScanError) : ScanError :=
  ⟨error.cause, origin.shift error.location⟩

/-- An event of a text that begins at `origin`. -/
def Scanner.Event.shift (origin : Location) : Scanner.Event → Scanner.Event
  | finished => finished
  | lexeme found => lexeme (found.shift origin)
  | error found => error (found.shift origin)

/-- The scan of a text that begins at `origin`. -/
def Scan.shift (origin : Location) (scan : Scan) : Scan :=
  ⟨scan.lexemes.map (Lexeme.shift origin), scan.error.map (ScanError.shift origin)⟩

/-! ## Two cursors before one text -/

namespace Cursor

/-- Two cursors have one text ahead of them, and the same behind it, and the places of the first are
those of the second, counted from where the second one's text begins. -/
structure Shifted (origin : Location) (cursor fresh : Cursor) : Prop where
  rest_eq : cursor.rest = fresh.rest
  behind_eq : cursor.source.behind = fresh.source.behind
  location_eq : cursor.location = origin.shift fresh.location
  onPage : fresh.location.OnPage

variable {origin : Location} {cursor fresh : Cursor}

/-- **One move keeps two cursors shifted.** -/
theorem Shifted.skip (h : Shifted origin cursor fresh) (n : Nat) :
    Shifted origin (cursor.skip n) (fresh.skip n) where
  rest_eq := congrArg (List.drop n) h.rest_eq
  behind_eq := h.behind_eq
  location_eq := by
    rw [location_skip, location_skip, h.rest_eq, h.location_eq, Location.shift_after h.onPage]
  onPage := h.onPage.after _

/-- Before one text there is one piece. -/
theorem Shifted.piece?_eq (h : Shifted origin cursor fresh) : cursor.piece? = fresh.piece? := by
  rw [piece?, piece?, h.rest_eq, h.behind_eq]

/-! ## One event -/

/-- The next event moves a cursor forwards. -/
theorem exists_nextEvent_eq_skip (cursor : Cursor) :
    ∃ n, cursor.nextEvent.2 = cursor.skip n := by
  induction cursor using reading with
  | finished cursor h => exact ⟨0, by rw [nextEvent_of_finished h, skip_zero]⟩
  | gap cursor text h ih =>
    obtain ⟨n, hn⟩ := ih
    exact ⟨text.length + n, by rw [nextEvent_of_gap h, hn, skip_skip]⟩
  | token cursor kind text h => exact ⟨text.length, by rw [nextEvent_of_token h]⟩
  | fault cursor cause place taken h => exact ⟨taken, by rw [nextEvent_of_fault h]⟩

/-- **Before one text there is one next event**, and it leaves two cursors shifted. -/
theorem Shifted.nextEvent (h : Shifted origin cursor fresh) :
    cursor.nextEvent.1 = fresh.nextEvent.1.shift origin ∧
      Shifted origin cursor.nextEvent.2 fresh.nextEvent.2 := by
  induction fresh using reading generalizing cursor with
  | finished fresh hread =>
    rw [nextEvent_of_finished hread, nextEvent_of_finished (h.rest_eq ▸ hread)]
    exact ⟨rfl, h⟩
  | gap fresh text hread ih =>
    rw [nextEvent_of_gap hread, nextEvent_of_gap (h.rest_eq ▸ hread)]
    exact ih (h.skip text.length)
  | token fresh kind text hread ih =>
    rw [nextEvent_of_token hread, nextEvent_of_token (h.rest_eq ▸ hread)]
    refine ⟨?_, h.skip text.length⟩
    rw [h.location_eq, (h.skip text.length).location_eq]
    rfl
  | fault fresh cause place taken hread =>
    rw [nextEvent_of_fault hread, nextEvent_of_fault (h.piece?_eq.trans hread)]
    refine ⟨?_, h.skip taken⟩
    rw [(h.skip place).location_eq]
    rfl

/-- Before one text there is one scan. -/
theorem Shifted.scan (h : Shifted origin cursor fresh) :
    cursor.scan = fresh.scan.shift origin := by
  induction fresh using reading generalizing cursor with
  | finished fresh hread =>
    rw [scan_of_finished hread, scan_of_finished (h.rest_eq ▸ hread)]
    rfl
  | gap fresh text hread ih =>
    rw [scan_of_gap hread, scan_of_gap (h.rest_eq ▸ hread)]
    exact ih (h.skip text.length)
  | token fresh kind text hread ih =>
    rw [scan_of_token hread, scan_of_token (h.rest_eq ▸ hread), ih (h.skip text.length),
      h.location_eq, (h.skip text.length).location_eq]
    rfl
  | fault fresh cause place taken hread =>
    rw [scan_of_fault hread, scan_of_fault (h.piece?_eq.trans hread),
      (h.skip place).location_eq]
    rfl

/-- A cursor that stands in a whole text is shifted from the start of the text ahead of it. -/
theorem StandsIn.shifted {source : SourceText} (h : StandsIn source cursor)
    (hwhole : source.IsWhole) :
    Shifted cursor.location cursor (SourceText.mk (source.chars.drop cursor.position)).cursor := by
  have hpage : cursor.location.OnPage := by
    rw [h.location_eq, SourceText.locationAt_eq]
    exact Location.onPage_start.after _
  -- the text ahead is shorter than all of it, so nothing of it is out of reach either
  have hlength : (source.chars.drop cursor.position).length ≤ SourceText.maxLength := by
    rw [List.length_drop]
    exact (Nat.sub_le _ _).trans source.length_le
  refine ⟨?_, ?_, (Location.shift_start hpage).symm, Location.onPage_start⟩
  · rw [h.rest_eq]
    exact (SourceText.chars_mk hlength).symm
  · have hahead : (SourceText.mk (source.chars.drop cursor.position)).IsWhole := hlength
    rw [h.source_eq, hwhole.behind_eq]
    exact hahead.behind_eq.symm

end Cursor

/-! ## Calls -/

namespace Scanner

/-- What a scanner comes upon in so many calls for the next lexeme. -/
def events (scanner : Scanner) : Nat → List Event
  | 0 => []
  | calls + 1 => scanner.nextLexeme.1 :: scanner.nextLexeme.2.events calls

/-- The scanner after so many calls for the next lexeme. -/
def after (scanner : Scanner) : Nat → Scanner
  | 0 => scanner
  | calls + 1 => scanner.nextLexeme.2.after calls

variable {source : SourceText} {scanner : Scanner}

/-- A scanner stands in its text after any number of calls, also of calls that found an error. -/
theorem standsIn_after (h : scanner.cursor.StandsIn source) (calls : Nat) :
    (scanner.after calls).cursor.StandsIn source := by
  induction calls generalizing scanner with
  | zero => exact h
  | succ calls ih =>
    refine ih ?_
    obtain ⟨n, hn⟩ := scanner.cursor.exists_nextEvent_eq_skip
    show scanner.cursor.nextEvent.2.StandsIn source
    rw [hn]
    exact h.skip n

/-- **Before one text there is one run of events.** -/
theorem events_of_shifted {origin : Location} {fresh : Scanner}
    (h : Cursor.Shifted origin scanner.cursor fresh.cursor) (calls : Nat) :
    scanner.events calls = (fresh.events calls).map (Event.shift origin) := by
  induction calls generalizing scanner fresh with
  | zero => rfl
  | succ calls ih =>
    obtain ⟨hevent, hafter⟩ := h.nextEvent
    exact congrArg₂ List.cons hevent (ih hafter)

end Scanner

/-! ## Scans from the end of a lexeme -/

/-- What follows a lexeme of a scan is scanned from a cursor at the lexeme's end. -/
theorem Cursor.exists_scan_eq_of_lexemes_eq {cursor : Cursor} {before rest : List Lexeme}
    {lexeme : Lexeme} (h : cursor.scan.lexemes = before ++ lexeme :: rest) :
    ∃ n, (cursor.skip n).location = lexeme.span.last ∧
      (cursor.skip n).scan = ⟨rest, cursor.scan.error⟩ := by
  induction cursor using reading generalizing before with
  | finished cursor hread =>
    rw [scan_of_finished hread] at h
    exact absurd h.symm (by simp)
  | gap cursor text hread ih =>
    rw [scan_of_gap hread] at h ⊢
    obtain ⟨n, hn⟩ := ih h
    rw [skip_skip] at hn
    exact ⟨text.length + n, hn⟩
  | token cursor kind text hread ih =>
    rw [scan_of_token hread] at h ⊢
    cases before with
    -- the lexeme is the one right ahead
    | nil =>
      obtain ⟨rfl, hrest⟩ := List.cons.inj h
      exact ⟨text.length, rfl, by rw [← hrest]⟩
    -- the lexeme comes later
    | cons first before =>
      obtain ⟨n, hn⟩ := ih (List.cons.inj h).2
      rw [skip_skip] at hn
      exact ⟨text.length + n, hn⟩
  | fault cursor cause place taken hread =>
    rw [scan_of_fault hread] at h
    exact absurd h.symm (by simp)

/-- **Scanning is memoryless.** After any number of calls, of which some may have found errors, a
scanner comes upon what a fresh one comes upon in the text that is ahead, as far as both are asked,
with places that are counted from where the scanner was. So a scan of the text after one of its
lexemes finds the lexemes after that one, and the error. -/
theorem scan_goes_on_afresh (source : SourceText) (hwhole : source.IsWhole) :
    (∀ calls more scanner, source.scanner.after calls = scanner →
      scanner.events more =
        ((SourceText.mk (source.chars.drop scanner.cursor.position)).scanner.events more).map
          (Scanner.Event.shift scanner.cursor.location)) ∧
    (∀ before lexeme rest, source.scan.lexemes = before ++ lexeme :: rest →
      (SourceText.mk (source.chars.drop lexeme.span.last.offset)).scan.shift lexeme.span.last =
        ⟨rest, source.scan.error⟩) := by
  constructor
  · rintro calls more scanner rfl
    have hs : (source.scanner.after calls).cursor.StandsIn source :=
      Scanner.standsIn_after (Cursor.standsIn_cursor source) calls
    exact Scanner.events_of_shifted (hs.shifted hwhole) more
  · intro before lexeme rest h
    obtain ⟨n, hlast, hscan⟩ := Cursor.exists_scan_eq_of_lexemes_eq h
    have hs : (source.cursor.skip n).StandsIn source := (Cursor.standsIn_cursor source).skip n
    have hposition : (source.cursor.skip n).position = lexeme.span.last.offset :=
      congrArg Location.offset hlast
    have hshifted := (hs.shifted hwhole).scan
    rw [hscan, hposition, hlast] at hshifted
    exact hshifted.symm

/-- The prime has no item, since a newline stands there. The scanner goes on at the newline, in the
second column, and the column does not matter any more after it. -/
theorem scan_goes_on_afresh_newline :
    (SourceText.mk ['\'', '\n', 'a']).IsWhole ∧
      ((SourceText.mk ['\'', '\n', 'a']).scanner.after 1).events 2 =
        [.lexeme ⟨.unknown, ['\n'], ⟨⟨1, 1, 2⟩, ⟨2, 2, 1⟩⟩⟩,
          .lexeme ⟨.identifier, ['a'], ⟨⟨2, 2, 1⟩, ⟨3, 2, 2⟩⟩⟩] := by
  have hwhole : (SourceText.mk ['\'', '\n', 'a']).IsWhole := by decide
  have hplace :
      ((SourceText.mk ['\'', '\n', 'a']).scanner.after 1).cursor.location = ⟨1, 1, 2⟩ := by
    decide +kernel
  have hfresh := (scan_goes_on_afresh _ hwhole).1 1 2 _ rfl
  rw [Cursor.position, hplace] at hfresh
  refine ⟨hwhole, hfresh.trans ?_⟩
  decide +kernel

end Lexis
