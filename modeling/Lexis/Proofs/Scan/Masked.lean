import Mathlib.Data.List.Forall2
import Lexis.Proofs.Piece.Masked
import Lexis.Proofs.Scan.Reach

/-!
# Scans of masked texts

A mask keeps newlines, so places are the same in a masked text, and what is read at each of them is
masked. A scan of the masked text is therefore the masked scan. Two texts that differ in codepoints
without significance only have a mask that makes them one text; the null codepoint is one of these,
and so no text ends where it stands.

- `SourceText.mask`, `Lexeme.mask`, `Scan.mask`: texts, lexemes and scans with a mask put on.
- `SourceText.scan_mask`: a masked text has the masked scan.
- `Interchangeable`, `veil`: codepoints that differ in nothing that is asked for, and the mask that
  makes them one.
- `insignificant_codepoints_interchange`: texts of such codepoints have scans with the same outline.
-/

namespace Lexis

/-! ## Masked scans -/

/-- A source text with each codepoint masked. -/
def SourceText.mask (f : Char → Char) (source : SourceText) : SourceText := ⟨source.stored.map f⟩

/-- A lexeme of a masked text: it has the masked text, and stands where it stood. -/
def Lexeme.mask (f : Char → Char) (lexeme : Lexeme) : Lexeme :=
  { lexeme with text := lexeme.text.map f }

/-- The scan of a masked text: its lexemes are masked, and the error is the same. -/
def Scan.mask (f : Char → Char) (scan : Scan) : Scan :=
  { scan with lexemes := scan.lexemes.map (Lexeme.mask f) }

/-- A cursor in a masked text. -/
def Cursor.mask (f : Char → Char) (cursor : Cursor) : Cursor :=
  { cursor with source := cursor.source.mask f, rest := cursor.rest.map f }

variable {f : Char → Char}

namespace SourceText

theorem chars_mask (f : Char → Char) (source : SourceText) :
    (source.mask f).chars = source.chars.map f :=
  List.map_take.symm

/-- A prime out of reach is kept, and no other codepoint becomes one. -/
theorem behind_mask_eq_iff (h : IsMask f) (source : SourceText) :
    (source.mask f).behind = '\'' ↔ source.behind = '\'' := by
  have hprime : Significant '\'' := by decide
  rw [behind, behind, mask, List.getD_eq_getElem?_getD, List.getD_eq_getElem?_getD,
    List.getElem?_map]
  cases source.stored[maxLength]? with
  | none => rfl
  | some c => exact h.eq_iff hprime

end SourceText

/-- A mask keeps newlines, and nothing else has a part in where a text ends. -/
theorem Location.after_map (h : IsMask f) (place : Location) (text : List Char) :
    place.after (text.map f) = place.after text := by
  induction text generalizing place with
  | nil => rfl
  | cons c text ih =>
    have hstep : place.step (f c) = place.step c := by
      simp only [step, h.eq_iff (show Significant '\n' by decide)]
    rw [List.map_cons, after_cons, after_cons, ih, hstep]

namespace Cursor

variable {cursor : Cursor}

theorem skip_mask (h : IsMask f) (cursor : Cursor) (n : Nat) :
    (cursor.mask f).skip n = (cursor.skip n).mask f := by
  have hlocation : cursor.location.after ((cursor.rest.map f).take n) =
      cursor.location.after (cursor.rest.take n) := by
    rw [← List.map_take, Location.after_map h]
  simp only [skip, mask, hlocation, List.map_drop]

theorem location_skip_mask (h : IsMask f) (cursor : Cursor) (n : Nat) :
    ((cursor.mask f).skip n).location = (cursor.skip n).location := by
  rw [skip_mask h]
  rfl

/-- What is ahead in a masked text is the masked piece. -/
theorem read?_mask (h : IsMask f) {piece : Option Piece} (hread : Piece.read? cursor.rest = piece) :
    Piece.read? (cursor.mask f).rest = piece.map (Piece.mask f) := by
  rw [← hread]
  exact Piece.read?_map h cursor.rest

/-- Primes are kept, in the text and out of reach. -/
theorem atCut_mask_iff (h : IsMask f) : (cursor.mask f).AtCut ↔ cursor.AtCut := by
  have hprime : Significant '\'' := by decide
  have hrest : cursor.rest.map f = ['\''] ↔ cursor.rest = ['\''] := by
    rw [List.map_eq_singleton_iff]
    simp only [h.eq_iff hprime, exists_eq_right]
  exact and_congr hrest (SourceText.behind_mask_eq_iff h cursor.source)

theorem piece?_mask (h : IsMask f) {cause : ScanError.Cause} {place taken : Nat}
    (hread : cursor.piece? = some (.fault cause place taken)) :
    (cursor.mask f).piece? = some (.fault cause place taken) := by
  by_cases hcut : cursor.AtCut
  · rw [← hread, piece?_of_atCut hcut, piece?_of_atCut ((atCut_mask_iff h).2 hcut)]
  · rw [piece?_of_not_atCut hcut] at hread
    rw [piece?_of_not_atCut (mt (atCut_mask_iff h).1 hcut)]
    exact read?_mask h hread

/-- **A masked text has the masked scan**, from wherever it is scanned. -/
theorem scan_mask (h : IsMask f) (cursor : Cursor) : (cursor.mask f).scan = cursor.scan.mask f := by
  induction cursor using reading with
  | finished cursor hread =>
    rw [scan_of_finished hread, scan_of_finished (read?_mask h hread)]
    rfl
  | gap cursor text hread ih =>
    rw [scan_of_gap hread, scan_of_gap (read?_mask h hread), List.length_map, skip_mask h, ih]
  | token cursor kind text hread ih =>
    rw [scan_of_token hread, scan_of_token (read?_mask h hread), List.length_map,
      location_skip_mask h, skip_mask h, ih]
    rfl
  | fault cursor cause place taken hread =>
    rw [scan_of_fault hread, scan_of_fault (piece?_mask h hread), location_skip_mask h]
    rfl

end Cursor

/-- **A masked text has the masked scan.** -/
theorem SourceText.scan_mask (h : IsMask f) (source : SourceText) :
    (source.mask f).scan = source.scan.mask f := by
  have hcursor : (source.mask f).cursor = source.cursor.mask f := by
    rw [cursor, chars_mask]
    rfl
  rw [scan, hcursor, Cursor.scan_mask h, scan]

/-- What the lexemes of a scan are and where they stand, without their texts. -/
def Scan.outline (scan : Scan) : List (Kind × Span) :=
  scan.lexemes.map fun lexeme => (lexeme.kind, lexeme.span)

theorem Scan.outline_mask (f : Char → Char) (scan : Scan) :
    (scan.mask f).outline = scan.outline := by
  rw [outline, mask, List.map_map]
  rfl

/-! ## Codepoints that can be interchanged -/

/-- The codepoints are the same, or neither is significant. -/
def Interchangeable (c d : Char) : Prop := c = d ∨ (¬Significant c ∧ ¬Significant d)

instance (c d : Char) : Decidable (Interchangeable c d) := inferInstanceAs (Decidable (_ ∨ _))

/-- The mask that shows the null codepoint for all that are not significant. -/
def veil (c : Char) : Char := if Significant c then c else '\x00'

theorem isMask_veil : IsMask veil where
  eq_self _ hc := if_pos hc
  insignificant c hc := by
    rw [veil, if_neg hc]
    decide

theorem Interchangeable.veil_eq {c d : Char} (h : Interchangeable c d) : veil c = veil d := by
  rcases h with rfl | ⟨hc, hd⟩
  · rfl
  · rw [veil, veil, if_neg hc, if_neg hd]

/-- Texts that can be interchanged are one text behind the veil. -/
theorem map_veil_eq {s t : List Char} (h : List.Forall₂ Interchangeable s t) :
    s.map veil = t.map veil := by
  induction h with
  | nil => rfl
  | cons hc _ ih => rw [List.map_cons, List.map_cons, hc.veil_eq, ih]

/-- The map that puts a codepoint for the null codepoint wherever it stands. -/
def replaceNull (c d : Char) : Char := if d = '\x00' then c else d

/-- The null codepoint is not significant, so it is a mask if the codepoint put for it is not
significant either. -/
theorem isMask_replaceNull {c : Char} (hc : ¬Significant c) : IsMask (replaceNull c) where
  eq_self d hd := if_neg fun hnull => absurd hd (by rw [hnull]; decide)
  insignificant d hd := by
    rw [replaceNull]
    split
    · exact hc
    · exact hd

/-- **Codepoints without significance can be interchanged.** Of two texts that hold, at every
offset, the same codepoint or two that are not significant, the scans have lexemes of the same kinds
at the same places, and the same error. The null codepoint is one of these, so it is nowhere taken
for the end of the text: wherever it stands, any other of them in its place changes nothing but the
texts of lexemes that hold it. -/
theorem insignificant_codepoints_interchange :
    (∀ a b : SourceText, List.Forall₂ Interchangeable a.stored b.stored →
      a.scan.outline = b.scan.outline ∧ a.scan.error = b.scan.error) ∧
    ∀ (source : SourceText) (c : Char), ¬Significant c →
      (source.mask (replaceNull c)).scan = source.scan.mask (replaceNull c) := by
  constructor
  · intro a b h
    have hscan : a.scan.mask veil = b.scan.mask veil := by
      rw [← SourceText.scan_mask isMask_veil, ← SourceText.scan_mask isMask_veil]
      exact congrArg (fun chars => (SourceText.mk chars).scan) (map_veil_eq h)
    have herror : (a.scan.mask veil).error = (b.scan.mask veil).error := congrArg Scan.error hscan
    refine ⟨?_, herror⟩
    rw [← Scan.outline_mask veil a.scan, hscan, Scan.outline_mask]
  · intro source c hc
    exact source.scan_mask (isMask_replaceNull hc)

/-- The null codepoint by itself, in a comment, in literals, behind a backslash and at the end. -/
theorem insignificant_codepoints_interchange_null :
    (SourceText.mk ['\x00', '#', '\x00', '\n', '\'', '\x00', '\'', '\x60', '\x00', '\x60', '"',
      '\x00', '\\', '\x00']).scan.outline =
      (SourceText.mk ['\t', '#', '?', '\n', '\'', '\r', '\'', '\x60', 'é', '\x60', '"',
        '%', '\\', '\x01']).scan.outline ∧
    (SourceText.mk ['\x00', '#', '\x00', '\n', '\'', '\x00', '\'', '\x60', '\x00', '\x60', '"',
      '\x00', '\\', '\x00']).scan.error =
      (SourceText.mk ['\t', '#', '?', '\n', '\'', '\r', '\'', '\x60', 'é', '\x60', '"',
        '%', '\\', '\x01']).scan.error := by
  refine insignificant_codepoints_interchange.1 _ _ ?_
  simp only [List.forall₂_cons, List.forall₂_nil_left_iff, and_true]
  decide

end Lexis
