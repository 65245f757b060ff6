import Lexis.Proofs.Scan.Tiling

/-!
# The errors of a scan

A scan has an error exactly where its lexemes and gaps stop before the end of the text. The text
from there on begins with a malformed construct, and the error is the one that it calls for. There
is one exception: before a prime that is the last codepoint of the text the error tells what is
stored behind the text.

- `SourceText.EndsInCut`: the scan comes to a prime at the end of the text, with a prime behind it.
- `SourceText.scan_error_iff_malformed`: which error, and where.
- `SourceText.scan_error_of_endsInCut`: the error of a text that ends so.
- `errors_are_malformed_constructs`: all of it together.
- `empty_literal_without_two_primes`: a text that ends so.
-/

namespace Lexis

variable {source : SourceText}

namespace SourceText

/-- The lexemes and gaps stop before the last codepoint of the text, a prime, and what is out of
reach begins with another one. -/
def EndsInCut (source : SourceText) : Prop :=
  source.chars.drop source.reach = ['\''] ∧ source.behind = '\''

/-- A text that is whole does not end so: behind it there is no prime. -/
theorem IsWhole.not_endsInCut (h : source.IsWhole) : ¬source.EndsInCut := by
  rintro ⟨-, hbehind⟩
  rw [h.behind_eq] at hbehind
  exact absurd hbehind (by decide)

/-! ## Which error, and where -/

/-- The error of a scan is that of the malformed construct where its lexemes and gaps stop. -/
theorem scan_error_iff_malformed (h : ¬source.EndsInCut) {cause : ScanError.Cause}
    {location : Location} :
    source.scan.error = some ⟨cause, location⟩ ↔
      ∃ place, Piece.Malformed (source.chars.drop source.reach) place cause ∧
        location = source.locationAt (source.reach + place) := by
  rw [scan_error_eq_some_iff, Piece.read?_behind h]
  constructor
  · rintro ⟨place, taken, hread, hlocation⟩
    exact ⟨place, Piece.read?_eq_fault_iff.1 ⟨taken, hread⟩, hlocation⟩
  · rintro ⟨place, hmalformed, hlocation⟩
    obtain ⟨taken, hread⟩ := Piece.read?_eq_fault_iff.2 hmalformed
    exact ⟨place, taken, hread, hlocation⟩

/-- The prime at the end is taken for a literal that is empty. -/
theorem scan_error_of_endsInCut (h : source.EndsInCut) :
    source.scan.error = some ⟨.emptyCharacterLiteral, source.locationAt source.reach⟩ := by
  rw [scan_error_eq_some_iff, h.1, h.2, Piece.read?_cut]
  exact ⟨0, 1, rfl, rfl⟩

/-- What begins there is a literal that is not closed. -/
theorem malformed_of_endsInCut (h : source.EndsInCut) :
    Piece.Malformed (source.chars.drop source.reach) 0 (.unterminatedLiteral .character) := by
  rw [h.1]
  exact Piece.read?_eq_fault_iff.1 ⟨1, Piece.read?_prime⟩

/-- Every error is found in a malformed construct and lies at its place. -/
theorem exists_malformed_of_scan_error {error : ScanError} (h : source.scan.error = some error) :
    ∃ place cause, Piece.Malformed (source.chars.drop source.reach) place cause ∧
      error.location = source.locationAt (source.reach + place) ∧
      (¬source.EndsInCut → cause = error.cause) := by
  by_cases hcut : source.EndsInCut
  · rw [scan_error_of_endsInCut hcut] at h
    obtain rfl := Option.some.inj h
    exact ⟨0, _, malformed_of_endsInCut hcut, rfl, fun hnot => absurd hcut hnot⟩
  · obtain ⟨place, hmalformed, hlocation⟩ := (scan_error_iff_malformed hcut).1 h
    exact ⟨place, error.cause, hmalformed, hlocation, fun _ => rfl⟩

/-- A place in the construct where lexemes and gaps stop is a place of the text. -/
theorem offset_of_malformed {cause : ScanError.Cause} {place : Nat}
    (h : Piece.Malformed (source.chars.drop source.reach) place cause) :
    (source.locationAt (source.reach + place)).offset = source.reach + place := by
  have hplace := h.place_le
  have hreach : source.reach ≤ source.chars.length := source.reach_le
  rw [List.length_drop] at hplace
  refine offset_locationAt ?_
  show source.reach + place ≤ source.chars.length
  omega

end SourceText

/-- **The errors are exactly the malformed constructs.** The lexemes and gaps of a scan are laid one
after another up to where it stops, and none lies there. It has no error if and only if that is the
end of the text. It has an error of some cause and at some place if and only if the text begins
there with a construct that is malformed in that way and at that place; and no construct is
malformed in two ways. This is so of every text that is whole. Of a text that is not, it is so but
for a prime that ends the text with another one behind it: that literal is not closed, and the error
tells that it is empty. -/
theorem errors_are_malformed_constructs (source : SourceText) :
    (∃ tiles, source.Tiles 0 tiles source.reach ∧ Tile.lexemes tiles = source.scan.lexemes) ∧
    (∀ tile last, ¬Tile.LiesAt source source.reach last tile) ∧
    (source.scan.error = none ↔ source.reach = source.length) ∧
    (¬source.EndsInCut → ∀ cause location, source.scan.error = some ⟨cause, location⟩ ↔
      ∃ place, Piece.Malformed (source.chars.drop source.reach) place cause ∧
        location = source.locationAt (source.reach + place) ∧
        location.offset = source.reach + place) ∧
    (∀ cause place cause' place',
      Piece.Malformed (source.chars.drop source.reach) place cause →
      Piece.Malformed (source.chars.drop source.reach) place' cause' →
      cause' = cause ∧ place' = place) ∧
    (source.IsWhole → ¬source.EndsInCut) ∧
    (source.EndsInCut →
      Piece.Malformed (source.chars.drop source.reach) 0 (.unterminatedLiteral .character) ∧
      source.scan.error = some ⟨.emptyCharacterLiteral, source.locationAt source.reach⟩) := by
  refine ⟨source.exists_tiles_reach, source.not_liesAt_reach, SourceText.scan_error_eq_none_iff,
    ?_, ?_, SourceText.IsWhole.not_endsInCut, ?_⟩
  · -- only what is stored behind the text could hide the cause
    intro hcut cause location
    rw [SourceText.scan_error_iff_malformed hcut]
    constructor
    · rintro ⟨place, hmalformed, rfl⟩
      exact ⟨place, hmalformed, rfl, SourceText.offset_of_malformed hmalformed⟩
    · rintro ⟨place, hmalformed, hlocation, -⟩
      exact ⟨place, hmalformed, hlocation⟩
  · intro cause place cause' place' h h'
    exact h.unique h'
  · intro hcut
    exact ⟨SourceText.malformed_of_endsInCut hcut, SourceText.scan_error_of_endsInCut hcut⟩

/-! ## A prime on either side of the end -/

/-- A line of spaces, and then the last codepoint that is within reach and the first that is not,
which are primes both. -/
theorem SourceText.endsInCut_of_spaces {n : Nat} (hn : n + 2 = maxLength) :
    (mk ('\n' :: (List.replicate n ' ' ++ ['\'', '\'']))).EndsInCut ∧
      (mk ('\n' :: (List.replicate n ' ' ++ ['\'', '\'']))).reach = n + 1 := by
  have hlength : ('\n' :: (List.replicate n ' ' ++ ['\''])).length = maxLength := by
    rw [List.length_cons, List.length_append, List.length_replicate]
    exact hn
  have hstored : '\n' :: (List.replicate n ' ' ++ ['\'', '\'']) =
      ('\n' :: (List.replicate n ' ' ++ ['\''])) ++ ['\''] := by
    rw [List.cons_append, List.append_assoc]
    rfl
  rw [hstored]
  generalize hsource : mk (('\n' :: (List.replicate n ' ' ++ ['\''])) ++ ['\'']) = source
  have hchars : source.chars = '\n' :: (List.replicate n ' ' ++ ['\'']) :=
    hsource ▸ chars_mk_append hlength _
  have hbehind : source.behind = '\'' := hsource ▸ behind_mk_append hlength _ _
  -- the newline is a token of its own, and the spaces after it are gaps
  have hline : Piece.read? source.cursor.rest = some (.token .unknown ['\n']) := by
    show Piece.read? source.chars = _
    rw [hchars]
    exact Piece.read?_of_begins (.unknown (by decide) (by decide) (by decide) rfl rfl _)
  have hspaces : (source.cursor.skip 1).rest = List.replicate n ' ' ++ ['\''] := by
    show source.chars.drop 1 = _
    rw [hchars]
    rfl
  have hprime : ((source.cursor.skip 1).skip n).rest = ['\''] := by
    rw [Cursor.rest_skip, hspaces]
    exact List.drop_left' List.length_replicate
  have hstop : source.cursor.stop = (source.cursor.skip 1).skip n := by
    have hcut : ((source.cursor.skip 1).skip n).AtCut := ⟨hprime, hbehind⟩
    have hpassed := ((Spacing.of_spaces n).passed hspaces).2
    rw [List.length_replicate] at hpassed
    rw [Cursor.stop_of_token hline]
    exact hpassed.trans (Cursor.stop_of_fault (Cursor.piece?_of_atCut hcut))
  -- all but the one codepoint that is left was passed
  have hreach : source.reach = n + 1 := by
    have hleft : source.cursor.stop.rest.length = source.length - source.reach :=
      source.standsIn_stop.length_rest
    have htotal : source.length = n + 2 := by rw [length, hchars, hlength, hn]
    rw [hstop, hprime, htotal, List.length_singleton] at hleft
    omega
  refine ⟨⟨?_, hbehind⟩, hreach⟩
  rw [hchars, hreach, List.drop_succ_cons]
  exact List.drop_left' List.length_replicate

/-- One codepoint more is stored than a word counts: a line break, spaces and two primes, of which
the second is out of reach. The scan finds an empty character literal, though from there on the text
has one prime and no second one, and no error for the literal that is not closed. -/
theorem empty_literal_without_two_primes :
    (SourceText.mk ('\n' :: (List.replicate 4294967293 ' ' ++ ['\'', '\'']))).scan.error =
        some ⟨.emptyCharacterLiteral,
          (SourceText.mk ('\n' :: (List.replicate 4294967293 ' ' ++ ['\'', '\'']))).locationAt
            4294967294⟩ ∧
      (SourceText.mk ('\n' :: (List.replicate 4294967293 ' ' ++ ['\'', '\'']))).chars.drop
        (SourceText.mk ('\n' :: (List.replicate 4294967293 ' ' ++ ['\'', '\'']))).reach =
      ['\''] := by
  obtain ⟨hcut, hreach⟩ := SourceText.endsInCut_of_spaces (n := 4294967293) rfl
  refine ⟨?_, hcut.1⟩
  rw [SourceText.scan_error_of_endsInCut hcut, hreach]

end Lexis
