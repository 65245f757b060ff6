import Lexis.Proofs.Scan.Reach
import Lexis.Proofs.Source.Lines

/-!
# Counting places in 32-bit words

A program that keeps offset, line and column in words of 32 bits counts right as long as no count is
too great for a word. Offsets are not, if the text's length is not. Lines and columns count from
one, and so they can be greater than the offset by one: at the very end of a text of the greatest
length, and only if all of it is newlines, or none.

- `Location.Fits`: all counts of a place fit into words.
- `WordLocation`: a place counted in words, which start again at zero.
- `SourceText.OverflowsAt`: the end of a longest text that has one line, or nothing but newlines.
- `SourceText.fits_locationAt_iff`: counts fit into words everywhere else.
- `words_overflow_only_at_end`: what this means for cursors, scans and the table of lines.
-/

namespace Lexis

/-! ## Words -/

/-- Every count of a place fits into a word. -/
structure Location.Fits (place : Location) : Prop where
  offset_lt : place.offset < UInt32.size
  line_lt : place.line < UInt32.size
  column_lt : place.column < UInt32.size

theorem Location.fits_iff {offset line column : Nat} :
    Location.Fits ⟨offset, line, column⟩ ↔
      offset < UInt32.size ∧ line < UInt32.size ∧ column < UInt32.size :=
  ⟨fun ⟨ho, hl, hc⟩ => ⟨ho, hl, hc⟩, fun ⟨ho, hl, hc⟩ => ⟨ho, hl, hc⟩⟩

/-- A place with its counts in words. A count that gets too great for a word starts again at
zero. -/
structure WordLocation where
  offset : UInt32
  line : UInt32
  column : UInt32
  deriving DecidableEq

namespace WordLocation

/-- The place before the first codepoint of a text. -/
def start : WordLocation := ⟨0, 1, 1⟩

/-- The place right after a codepoint, each count added to as a word. -/
def step (place : WordLocation) (c : Char) : WordLocation :=
  if c = '\n' then ⟨place.offset + 1, place.line + 1, 1⟩
  else ⟨place.offset + 1, place.line, place.column + 1⟩

/-- The place right after a text. -/
def after (place : WordLocation) (text : List Char) : WordLocation :=
  text.foldl step place

/-- The counts that the words say. -/
def toLocation (place : WordLocation) : Location :=
  ⟨place.offset.toNat, place.line.toNat, place.column.toNat⟩

end WordLocation

namespace Location

/-- What is left of the counts of a place in words. -/
def toWords (place : Location) : WordLocation :=
  ⟨UInt32.ofNat place.offset, UInt32.ofNat place.line, UInt32.ofNat place.column⟩

/-- Counting in words one codepoint further loses no more than is lost of the counts. -/
theorem toWords_step (place : Location) (c : Char) :
    (place.step c).toWords = place.toWords.step c := by
  unfold step WordLocation.step
  split
  · simp only [toWords, UInt32.ofNat_add]
    rfl
  · simp only [toWords, UInt32.ofNat_add]
    rfl

theorem toWords_after (place : Location) (text : List Char) :
    (place.after text).toWords = place.toWords.after text := by
  induction text generalizing place with
  | nil => rfl
  | cons c text ih =>
    rw [after_cons, ih, toWords_step]
    rfl

/-- **Words say the counts of a place just if these fit.** -/
theorem toLocation_toWords_iff (place : Location) :
    place.toWords.toLocation = place ↔ place.Fits := by
  obtain ⟨offset, line, column⟩ := place
  have hword : ∀ n : Nat, (UInt32.ofNat n).toNat = n ↔ n < UInt32.size := by
    intro n
    constructor
    · intro h
      exact h ▸ (UInt32.ofNat n).toNat_lt
    · exact fun h => UInt32.toNat_ofNat_of_lt' h
  simp only [toWords, WordLocation.toLocation, mk.injEq, hword, fits_iff]

end Location

/-! ## Where counts do not fit -/

namespace SourceText

variable {source : SourceText} {n : Nat}

/-- The offset is the greatest that a word can hold, and the text is nothing but newlines or has
none. -/
def OverflowsAt (source : SourceText) (n : Nat) : Prop :=
  n + 1 = UInt32.size ∧ ((∀ c ∈ source.chars, c = '\n') ∨ '\n' ∉ source.chars)

/-- Offsets fit, since a text is no longer than a word can count. -/
theorem lt_size_of_le (hn : n ≤ source.length) : n < UInt32.size :=
  Nat.lt_of_le_of_lt (hn.trans source.length_le) (by decide)

/-- Before the end of a text nothing overflows. -/
theorem not_overflowsAt_of_lt (hn : n < source.length) : ¬source.OverflowsAt n := fun hover => by
  have hend := hover.1
  have hlt : n + 1 < UInt32.size := lt_size_of_le (Nat.succ_le_of_lt hn)
  exact Nat.ne_of_lt hlt hend

/-- **Where counts fit into words.** The column is greater than the offset only in the first line,
and the line only behind nothing but newlines. -/
theorem fits_locationAt_iff (hn : n ≤ source.length) :
    (source.locationAt n).Fits ↔ ¬source.OverflowsAt n := by
  have h : source.length < UInt32.size := lt_size_of_le (Nat.le_refl _)
  obtain ⟨before, own, more, after, hof, rfl⟩ := exists_isLine_of_le hn
  have hchars : source.chars = before ++ (own ++ (more ++ after)) := by
    rw [hof.chars_eq, List.append_assoc own]
  have hlength : source.length = before.length + own.length + (more ++ after).length := by
    show source.chars.length = _
    rw [hchars, List.length_append, List.length_append, Nat.add_assoc]
  have hcount : before.count '\n' ≤ before.length := List.count_le_length
  rw [hof.locationAt, Location.fits_iff]
  constructor
  · rintro ⟨-, hline, hcolumn⟩ ⟨hend, hall | hnone⟩
    · -- the text is nothing but newlines, and the line is one more than they are
      have hown : own = [] := List.eq_nil_iff_forall_not_mem.2 fun c hc => by
        have hc' := hall c (by rw [hchars]; simp [hc])
        exact hof.not_mem (List.mem_append_left more (hc' ▸ hc))
      have hbefore : before.count '\n' = before.length :=
        List.count_eq_length.2 fun c hc => (hall c (by rw [hchars]; simp [hc])).symm
      rw [hown, List.length_nil] at hend
      rw [hbefore] at hline
      omega
    · -- the text is one line, and the column is one more than it is long
      have hbefore : before = [] := by
        obtain hnil | ⟨front, rfl⟩ := hof.before_ends
        · exact hnil
        · exact absurd (by rw [hchars]; simp) hnone
      rw [hbefore, List.length_nil] at hend
      omega
  · intro hnot
    refine ⟨Nat.lt_of_le_of_lt hn h, Nat.lt_of_not_le fun hline => hnot ?_,
      Nat.lt_of_not_le fun hcolumn => hnot ?_⟩
    · -- as many newlines before the offset as there are codepoints in the text
      have hown : own = [] := List.length_eq_zero_iff.1 (by omega)
      have hrest : more ++ after = [] := List.length_eq_zero_iff.1 (by omega)
      have hbefore : before.count '\n' = before.length := by omega
      refine ⟨by rw [hown, List.length_nil]; omega, .inl fun c hc => ?_⟩
      rw [hchars, hown, hrest, List.append_nil, List.append_nil] at hc
      exact (List.count_eq_length.1 hbefore c hc).symm
    · -- the line of the offset is all of the text
      have hbefore : before = [] := List.length_eq_zero_iff.1 (by omega)
      have hrest : more ++ after = [] := List.length_eq_zero_iff.1 (by omega)
      refine ⟨by omega, .inr ?_⟩
      rw [hchars, hbefore, hrest, List.append_nil, List.nil_append]
      exact fun hmem => hof.not_mem (List.mem_append_left more hmem)

/-- The same for a place that is found for any offset, also beyond the text. -/
theorem fits_of_eq_locationAt {place : Location} (hplace : place = source.locationAt n) :
    place.Fits ↔ ¬source.OverflowsAt place.offset := by
  have hle : place.offset ≤ source.length := hplace ▸ Nat.min_le_right n source.length
  have hfits := fits_locationAt_iff hle
  rwa [hplace, locationAt_offset, ← hplace] at hfits

theorem mem_offsetsAfterNewlines_le {offset start : Nat} {text : List Char}
    (h : start ∈ offsetsAfterNewlines offset text) : start ≤ offset + text.length := by
  induction text generalizing offset with
  | nil => exact absurd h List.not_mem_nil
  | cons c text ih =>
    have hrest : start ∈ offsetsAfterNewlines (offset + 1) text →
        start ≤ offset + (text.length + 1) := by
      intro h
      have hle := ih h
      omega
    rw [offsetsAfterNewlines] at h
    rw [List.length_cons]
    split at h
    · rcases List.mem_cons.1 h with rfl | h
      · omega
      · exact hrest h
    · exact hrest h

/-- No line starts behind the end of the text. -/
theorem le_length_of_mem_starts {start : Nat} (h : start ∈ source.lineTable.starts) :
    start ≤ source.length := by
  rcases List.mem_cons.1 h with rfl | h
  · exact Nat.zero_le _
  · have hle := mem_offsetsAfterNewlines_le h
    rwa [Nat.zero_add] at hle

end SourceText

/-- **Words overflow only at the end of a longest text.** All counts of all places of a text fit
into words but at one: the end of a text of the greatest length that is nothing but newlines, or has
none. There, and nowhere else, counting in words is wrong. So it is for every cursor that stands in
the text, however it was moved there, and for the places of lexemes and errors; a lexeme always
begins at a place that fits. In the table of lines all offsets fit. -/
theorem words_overflow_only_at_end (source : SourceText) :
    (∀ n ≤ source.length, (source.locationAt n).Fits ↔ ¬source.OverflowsAt n) ∧
    (∀ n ≤ source.length,
      (WordLocation.start.after (source.chars.take n)).toLocation = source.locationAt n ↔
        ¬source.OverflowsAt n) ∧
    (∀ cursor : Cursor, cursor.StandsIn source →
      (cursor.location.Fits ↔ ¬source.OverflowsAt cursor.position)) ∧
    (∀ lexeme ∈ source.scan.lexemes, lexeme.span.first.Fits ∧
      (lexeme.span.last.Fits ↔ ¬source.OverflowsAt lexeme.span.last.offset)) ∧
    (∀ error, source.scan.error = some error →
      (error.location.Fits ↔ ¬source.OverflowsAt error.location.offset)) ∧
    ∀ start ∈ source.lineTable.starts, start < UInt32.size := by
  refine ⟨fun n hn => SourceText.fits_locationAt_iff hn, fun n hn => ?_, fun cursor hs => ?_,
    fun lexeme hlexeme => ?_, fun error herror => ?_, fun start hstart => ?_⟩
  · -- words wrap exactly if the true counts do not fit
    have hwords : WordLocation.start.after (source.chars.take n) =
        (source.locationAt n).toWords := by
      rw [SourceText.locationAt_eq, Location.toWords_after]
      rfl
    rw [hwords, Location.toLocation_toWords_iff]
    exact SourceText.fits_locationAt_iff hn
  · rw [hs.location_eq]
    exact SourceText.fits_locationAt_iff hs.position_le
  · obtain ⟨first, hle, hread, hspan⟩ := SourceText.read?_of_mem_scan hlexeme
    rw [hspan]
    refine ⟨(SourceText.fits_locationAt_iff hle).2 ?_, SourceText.fits_of_eq_locationAt rfl⟩
    -- a lexeme has a codepoint, so it does not begin at the end of the text
    refine SourceText.not_overflowsAt_of_lt (Nat.lt_of_le_of_ne hle fun heq => ?_)
    have hnil : source.chars.drop first = [] := List.drop_eq_nil_of_le (Nat.le_of_eq heq.symm)
    rw [hnil] at hread
    cases hread
  · -- the place of an error is the place of an offset
    obtain ⟨cause, location⟩ := error
    obtain ⟨place, taken, -, rfl⟩ := SourceText.scan_error_eq_some_iff.1 herror
    exact SourceText.fits_of_eq_locationAt rfl
  · exact SourceText.lt_size_of_le (SourceText.le_length_of_mem_starts hstart)

/-- Every newline opens a line, and a text of newlines ends in a line behind all of them. -/
theorem locationAt_replicate_newline {n : Nat} (h : n ≤ SourceText.maxLength) :
    SourceText.locationAt ⟨List.replicate n '\n'⟩ n = ⟨n, n + 1, 1⟩ := by
  have hchars : (SourceText.mk (List.replicate n '\n')).chars = List.replicate n '\n' :=
    SourceText.chars_mk (by rwa [List.length_replicate])
  rw [SourceText.locationAt_eq, hchars, List.take_replicate, Nat.min_self,
    Location.start_after_of_ends, List.length_replicate, List.count_replicate_self]
  cases n with
  | zero => exact .inl rfl
  | succ n => exact .inr ⟨List.replicate n '\n', List.replicate_succ'⟩

/-- A text of as many newlines as a word can count is whole, and has a line that no word can count:
in words the text ends in line zero. -/
theorem line_of_newlines_exceeds_word :
    (SourceText.mk (List.replicate 4294967295 '\n')).IsWhole ∧
      (SourceText.locationAt ⟨List.replicate 4294967295 '\n'⟩ 4294967295).line = UInt32.size ∧
      (WordLocation.start.after (List.replicate 4294967295 '\n')).line = 0 := by
  have hplace := locationAt_replicate_newline (n := 4294967295) (Nat.le_refl _)
  have hwhole : (SourceText.mk (List.replicate 4294967295 '\n')).IsWhole :=
    Nat.le_of_eq List.length_replicate
  refine ⟨hwhole, congrArg Location.line hplace, ?_⟩
  have hwords : WordLocation.start.after (List.replicate 4294967295 '\n') =
      (Location.start.after (List.replicate 4294967295 '\n')).toWords := by
    rw [Location.toWords_after]
    rfl
  have hall : (List.replicate 4294967295 '\n').take 4294967295 = List.replicate 4294967295 '\n' :=
    List.take_of_length_le (Nat.le_of_eq List.length_replicate)
  rw [SourceText.locationAt_eq, hwhole.chars_eq, hall] at hplace
  rw [hwords, hplace]
  rfl

end Lexis
