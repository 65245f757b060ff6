import Lexis.Command.Report
import Lexis.Proofs.Scan.Errors
import Lexis.Proofs.Source.Lines
import Lexis.Proofs.Text.Lines

/-!
# The caret stands below the error

An error is shown in six lines, and three of them are drawn to fit each other: the line of the
source behind its number, the bar above it, and the caret below. That the caret stands where it
should rests on two things that are found apart: the place of the error, which the scan has counted
on its way, and the bounds of the line, which come from the table of lines.

- `ScanError.isLines_diagnostic`: a diagnostic is six lines, whatever the error.
- `ScanError.exists_isLine_of_scan`: the place of a scan's error lies in a line, or at its end.
- `SourceText.PointsAt`: a drawn line and a caret below it that stands where an offset is drawn.
- `SourceText.IsLine.pointsAt`: how many columns that is.
- `caret_stands_below_error`: all of it together.
-/

namespace Lexis

theorem SourceText.oneLine_line (source : SourceText) (n : Nat) :
    Text.OneLine (String.ofList (source.line n)) := by
  unfold Text.OneLine
  rw [String.toList_ofList]
  cases hstart : source.lineTable.start? n with
  | none =>
    rw [SourceText.line, hstart]
    exact List.not_mem_nil
  | some first =>
    obtain ⟨before, line, after, hof, rfl, -⟩ := exists_isLine_of_start? hstart
    rw [hof.line_eq]
    exact hof.not_mem

/-! ## Six lines -/

namespace ScanError

theorem Cause.oneLine_message (cause : Cause) : Text.OneLine cause.message := by
  cases cause with
  | unterminatedLiteral form => cases form <;> decide
  | bareNewlineInLiteral form => cases form <;> decide
  | invalidEscapeDigitCount digits =>
    show Text.OneLine ("escape sequence has " ++ toString digits
      ++ " hexadecimal digits, expected 1 to 8")
    rw [Text.oneLine_append_iff, Text.oneLine_append_iff]
    exact ⟨⟨by decide, Text.oneLine_toString digits⟩, by decide⟩
  | _ => decide

theorem Cause.oneLine_help (cause : Cause) : Text.OneLine cause.help := by
  cases cause with
  | unterminatedLiteral form => cases form <;> decide
  | bareNewlineInLiteral form =>
    show Text.OneLine "use `\\a` for a newline, or a raw string for multi-line text"
    decide
  | invalidEscapeDigitCount digits =>
    show Text.OneLine "escape one of \\ ' \" ` or write the codepoint as 1 to 8 hex digits"
    decide
  | _ => decide

variable (error : ScanError)

/-- What stands before the bars, as wide as the number of the error's line. -/
def gutter : String := Text.spaces (Nat.toDigits 10 error.location.line).length

/-- **A diagnostic is six lines**, for any error and any text, as long as the path is shown in one
line. -/
theorem isLines_diagnostic {path : Path} (hpath : Text.OneLine path.display)
    (contents : SourceText) :
    Text.IsLines (Text.unlines (error.diagnostic path contents))
      ["error: " ++ error.message,
        error.gutter ++ "--> " ++ path.display ++ ":" ++ error.location.display,
        error.gutter ++ " |",
        toString error.location.line ++ " | "
          ++ String.ofList (contents.line error.location.line),
        error.gutter ++ " | " ++ Text.spaces (error.location.column - 1) ++ "^",
        error.gutter ++ " = help: " ++ error.help] := by
  have hgutter : Text.OneLine error.gutter := Text.oneLine_spaces _
  have hnumber := Text.oneLine_toString error.location.line
  have hplace : Text.OneLine error.location.display := by
    rw [Location.display, Text.oneLine_append_iff, Text.oneLine_append_iff]
    exact ⟨⟨hnumber, by decide⟩, Text.oneLine_toString _⟩
  refine ⟨?_, ?_⟩
  · rw [diagnostic, Text.length_toString]
    rfl
  · simp only [List.forall_mem_cons, List.not_mem_nil, false_implies, implies_true, and_true,
      Text.oneLine_append_iff]
    -- what stands between the parts of a line is the same for every error
    exact ⟨⟨by decide, error.cause.oneLine_message⟩,
      ⟨⟨⟨⟨hgutter, by decide⟩, hpath⟩, by decide⟩, hplace⟩, ⟨hgutter, by decide⟩,
      ⟨⟨hnumber, by decide⟩, contents.oneLine_line _⟩,
      ⟨⟨⟨hgutter, by decide⟩, Text.oneLine_spaces _⟩, by decide⟩,
      ⟨⟨hgutter, by decide⟩, error.cause.oneLine_help⟩⟩

end ScanError

/-! ## Columns -/

/-- The columns of what is drawn behind a front of so many codepoints and a bar. -/
theorem getElem?_behind_bar (front rest : List Char) (n : Nat) :
    (front ++ ' ' :: '|' :: ' ' :: rest)[front.length + 3 + n]? = rest[n]? := by
  rw [List.getElem?_append_right (by omega)]
  have hcolumn : front.length + 3 + n - front.length = n + 1 + 1 + 1 := by omega
  rw [hcolumn]
  rfl

theorem getElem?_bar (front rest : List Char) :
    (front ++ ' ' :: '|' :: rest)[front.length + 1]? = some '|' := by
  rw [List.getElem?_append_right (Nat.le_add_right _ _), Nat.add_sub_cancel_left]
  rfl

namespace ScanError

variable (error : ScanError)

theorem toList_rule : (error.gutter ++ " |").toList
    = List.replicate (Nat.toDigits 10 error.location.line).length ' ' ++ [' ', '|'] := by
  rw [String.toList_append, gutter, Text.toList_spaces]
  rfl

theorem toList_excerpt (line : List Char) :
    (toString error.location.line ++ " | " ++ String.ofList line).toList
      = Nat.toDigits 10 error.location.line ++ ' ' :: '|' :: ' ' :: line := by
  have hline : (String.ofList line).toList = line := String.toList_ofList
  rw [String.toList_append, String.toList_append, Text.toList_toString, hline, List.append_assoc]
  rfl

theorem toList_pointer (n : Nat) : (error.gutter ++ " | " ++ Text.spaces n ++ "^").toList
    = List.replicate (Nat.toDigits 10 error.location.line).length ' '
      ++ ' ' :: '|' :: ' ' :: (List.replicate n ' ' ++ ['^']) := by
  rw [String.toList_append, String.toList_append, String.toList_append, gutter,
    Text.toList_spaces, Text.toList_spaces, List.append_assoc, List.append_assoc]
  rfl

variable {error : ScanError} {contents : SourceText}

/-- The place of a scan's error lies in a line, or at its end. -/
theorem exists_isLine_of_scan (h : contents.scan.error = some error) :
    ∃ before own more after, contents.IsLine before (own ++ more) after ∧
      error.location = ⟨before.length + own.length, before.count '\n' + 1, own.length + 1⟩ := by
  obtain ⟨place, cause, hmalformed, hlocation, -⟩ := SourceText.exists_malformed_of_scan_error h
  have hle : contents.reach + place ≤ contents.length := by
    have hplace := hmalformed.place_le
    have hreach : contents.reach ≤ contents.chars.length := contents.reach_le
    rw [List.length_drop] at hplace
    show _ ≤ contents.chars.length
    omega
  obtain ⟨before, own, more, after, hof, hn⟩ := SourceText.exists_isLine_of_le hle
  refine ⟨before, own, more, after, hof, ?_⟩
  rw [hlocation, hn, hof.locationAt]

end ScanError

namespace SourceText

variable {contents : SourceText} {before own more after : List Char}

/-- What stands at an offset in a line, or right behind the line. -/
theorem IsLine.getElem?_eq (h : contents.IsLine before (own ++ more) after) :
    contents.chars[before.length + own.length]? = (more ++ after).head? := by
  have hsplit : contents.chars = (before ++ own) ++ (more ++ after) := by
    rw [h.chars_eq]
    simp only [List.append_assoc]
  rw [hsplit, ← List.length_append, List.getElem?_append_right (Nat.le_refl _), Nat.sub_self,
    List.head?_eq_getElem?]

/-- A drawn line ends with a caret that points at an offset of a text: in its column the line drawn
above has the codepoint at that offset, unless this is a newline. Behind a newline or the end of the
text the caret stands right behind the line above, and never further on. -/
structure PointsAt (contents : SourceText) (offset : Nat) (above pointer : String) (caret : Nat) :
    Prop where
  caret_eq : pointer.toList[caret]? = some '^'
  length_eq : pointer.toList.length = caret + 1
  caret_le : caret ≤ above.toList.length
  above_eq : ∀ c, contents.chars[offset]? = some c → c ≠ '\n' → above.toList[caret]? = some c
  behind : contents.chars[offset]? = some '\n' ∨ offset = contents.length →
    caret = above.toList.length

/-- A caret that is drawn as far on as an offset lies in its line points at the offset. -/
theorem IsLine.pointsAt (h : contents.IsLine before (own ++ more) after) {number : List Char}
    {above pointer : String} (habove : above.toList = number ++ ' ' :: '|' :: ' ' :: (own ++ more))
    (hpointer : pointer.toList = List.replicate number.length ' '
      ++ ' ' :: '|' :: ' ' :: (List.replicate own.length ' ' ++ ['^'])) :
    contents.PointsAt (before.length + own.length) above pointer
      (number.length + 3 + own.length) := by
  have hat := h.getElem?_eq
  -- the codepoint above the caret is the one at the offset
  have hcolumn : above.toList[number.length + 3 + own.length]? = more.head? := by
    rw [habove, getElem?_behind_bar, List.getElem?_append_right (Nat.le_refl _), Nat.sub_self,
      List.head?_eq_getElem?]
  have hlength : above.toList.length = number.length + 3 + own.length + more.length := by
    rw [habove]
    simp only [List.length_append, List.length_cons]
    omega
  refine ⟨?_, ?_, ?_, ?_, ?_⟩
  · -- the caret stands there
    have hcaret := getElem?_behind_bar (List.replicate number.length ' ')
      (List.replicate own.length ' ' ++ ['^']) own.length
    rw [List.length_replicate] at hcaret
    rw [hpointer, hcaret, List.getElem?_append_right (by simp), List.length_replicate, Nat.sub_self]
    rfl
  · -- and nothing is behind it
    rw [hpointer]
    simp only [List.length_append, List.length_cons, List.length_replicate, List.length_nil]
    omega
  · -- it stands below the line or one past its end
    rw [hlength]
    exact Nat.le_add_right _ _
  · -- a codepoint at the offset is the one above, unless it is a newline
    intro c hc hne
    rw [hat] at hc
    rw [hcolumn]
    cases more with
    | cons d more => exact hc
    | nil =>
      -- behind the line there is nothing but its newline
      obtain rfl | ⟨rest, rfl⟩ := h.after_begins
      · cases hc
      · exact absurd (Option.some.inj hc).symm hne
  · -- at a newline, or at the end of the text, the caret stands one past the end
    intro hend
    rw [hlength]
    cases more with
    | nil => rfl
    | cons d more =>
      -- with some of the line still ahead there is neither a newline nor the end of the text
      have hd : contents.chars[before.length + own.length]? = some d := hat
      obtain hnewline | hend := hend
      · obtain rfl := Option.some.inj (hd.symm.trans hnewline)
        exact absurd (List.mem_append_right own List.mem_cons_self) h.not_mem
      · have hnone : contents.chars[contents.length]? = none :=
          List.getElem?_eq_none (Nat.le_refl _)
        rw [hend, hnone] at hd
        cases hd

end SourceText

/-- **The caret stands below the error.** Whatever the error, it is shown in six lines, if the path
is shown in one. The bars of the three that are drawn to fit each other stand in one column, and
where the text has no such line nothing is drawn as its text. For the error of a scan that text is
the line that the error's place lies in, or at the end of, and the caret points at the place. -/
theorem caret_stands_below_error (path : Path) (contents : SourceText) (error : ScanError)
    (hpath : Text.OneLine path.display) :
    let place := error.location
    let width := (Nat.toDigits 10 place.line).length
    let line := contents.line place.line
    let rule := Text.spaces width ++ " |"
    let excerpt := toString place.line ++ " | " ++ String.ofList line
    let pointer := Text.spaces width ++ " | " ++ Text.spaces (place.column - 1) ++ "^"
    Text.IsLines (Text.unlines (error.diagnostic path contents))
      ["error: " ++ error.message,
        Text.spaces width ++ "--> " ++ path.display ++ ":"
          ++ (toString place.line ++ ":" ++ toString place.column),
        rule, excerpt, pointer, Text.spaces width ++ " = help: " ++ error.help] ∧
    (∀ drawn ∈ [rule, excerpt, pointer], drawn.toList[width + 1]? = some '|') ∧
    (place.line = 0 ∨ 1 + contents.chars.count '\n' < place.line → line = []) ∧
    (contents.scan.error = some error →
      (∃ before own more after, contents.IsLine before (own ++ more) after ∧
        line = own ++ more ∧ place.offset = before.length + own.length ∧
        place.column - 1 = own.length) ∧
      contents.PointsAt place.offset excerpt pointer (width + 3 + (place.column - 1))) := by
  intro place width line rule excerpt pointer
  have hrule : rule.toList = List.replicate width ' ' ++ [' ', '|'] := error.toList_rule
  have hexcerpt : excerpt.toList = Nat.toDigits 10 place.line ++ ' ' :: '|' :: ' ' :: line :=
    error.toList_excerpt line
  have hpointer : pointer.toList = List.replicate width ' '
      ++ ' ' :: '|' :: ' ' :: (List.replicate (place.column - 1) ' ' ++ ['^']) :=
    error.toList_pointer _
  refine ⟨error.isLines_diagnostic hpath contents, ?_, ?_, ?_⟩
  · -- all three lines have as much before their bars
    have hbar := getElem?_bar (List.replicate width ' ')
    rw [List.length_replicate] at hbar
    simp only [List.forall_mem_cons, List.not_mem_nil, false_implies, implies_true, and_true]
    rw [hrule, hexcerpt, hpointer]
    exact ⟨hbar _, getElem?_bar _ _, hbar _⟩
  · exact fun hout => SourceText.line_eq_nil hout
  · intro herror
    -- the place of the error cuts its line in two
    obtain ⟨before, own, more, after, hof, hplace⟩ := ScanError.exists_isLine_of_scan herror
    have hoffset : place.offset = before.length + own.length := congrArg Location.offset hplace
    have hcolumn : place.column - 1 = own.length := by
      have hcolumn : place.column = own.length + 1 := congrArg Location.column hplace
      omega
    have hline : line = own ++ more := by
      have hnumber : place.line = before.count '\n' + 1 := congrArg Location.line hplace
      show contents.line place.line = _
      rw [hnumber, hof.line_eq]
    refine ⟨⟨before, own, more, after, hof, hline, hoffset, hcolumn⟩, ?_⟩
    rw [hline] at hexcerpt
    rw [hcolumn] at hpointer
    rw [hoffset, hcolumn]
    exact hof.pointsAt hexcerpt hpointer

/-- An empty character literal on a second line: the caret stands below its first prime, in the
fifth column as drawn. -/
theorem caret_stands_below_error_empty_literal :
    (SourceText.scan ⟨['a', '\n', '\'', '\'']⟩).error = some ⟨.emptyCharacterLiteral, ⟨2, 2, 1⟩⟩ ∧
      SourceText.PointsAt ⟨['a', '\n', '\'', '\'']⟩ 2 "2 | ''" "  | ^" 4 := by
  have hscan : (SourceText.scan ⟨['a', '\n', '\'', '\'']⟩).error
      = some ⟨.emptyCharacterLiteral, ⟨2, 2, 1⟩⟩ := by decide +kernel
  have hpath : Text.OneLine (Path.ofText ['a', '.', 't', 'r']).display := by decide +kernel
  obtain ⟨-, -, -, hpoints⟩ := caret_stands_below_error (Path.ofText ['a', '.', 't', 'r'])
    ⟨['a', '\n', '\'', '\'']⟩ ⟨.emptyCharacterLiteral, ⟨2, 2, 1⟩⟩ hpath
  exact ⟨hscan, (hpoints hscan).2⟩

end Lexis
