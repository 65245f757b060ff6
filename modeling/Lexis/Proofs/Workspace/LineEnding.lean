import Lexis.Workspace.Load
import Lexis.Proofs.Source.Lines
import Lexis.Proofs.Text.LineEnding
import Lexis.Proofs.Text.Utf8

/-!
# Lines of normalised sources

Line endings are normalised while a source is read. Its lines keep their numbers.

- `SourceText.EndsWithNewline`: lines that a newline ends, and not the end of the text.
- `SourceText.IsLine.dropReturns`: what a line of a text becomes when the text is normalised.
- `SourceText.line_dropReturns`: line by line, whatever the number.
- `normalising_keeps_lines`: a source read with its line endings normalised, and as it is.
- `newline_comes_within_reach`: a source that is too long for it.
-/

namespace Lexis

namespace SourceText

variable {source : SourceText} {before line after : List Char}

/-- A newline ends the line, and not the end of the text. -/
def EndsWithNewline (source : SourceText) (n : Nat) : Prop :=
  ∃ stop, source.lineTable.stop? n = some stop ∧ source.chars[stop]? = some '\n'

theorem IsLine.endsWithNewline_iff (h : source.IsLine before line after) :
    source.EndsWithNewline (before.count '\n' + 1) ↔ after ≠ [] := by
  have hchar : source.chars[before.length + line.length]? = after.head? := by
    rw [h.chars_eq, ← List.append_assoc, ← List.length_append,
      List.getElem?_append_right (Nat.le_refl _), Nat.sub_self, List.head?_eq_getElem?]
  constructor
  · rintro ⟨stop, hstop, hnewline⟩ rfl
    rw [h.stop?_eq, Option.some.injEq] at hstop
    rw [← hstop, hchar] at hnewline
    cases hnewline
  · intro hafter
    obtain hend | ⟨rest, rfl⟩ := h.after_begins
    · exact absurd hend hafter
    · exact ⟨_, h.stop?_eq, hchar⟩

theorem not_endsWithNewline {n : Nat} (h : n = 0 ∨ 1 + source.chars.count '\n' < n) :
    ¬source.EndsWithNewline n := by
  rintro ⟨stop, hstop, -⟩
  have hstart := LineTable.stop?_isSome_iff.1 (Option.isSome_of_eq_some hstop)
  rw [start?_isSome_iff] at hstart
  omega

/-- A normalised text is no longer than it was. -/
theorem chars_dropReturns (source : SourceText) :
    (mk (Text.dropReturns source.chars)).chars = Text.dropReturns source.chars :=
  chars_mk ((Text.dropReturns_sublist source.chars).length_le.trans source.length_le)

/-- **Normalised line by line.** What comes before a line and after it is normalised by itself. The
line loses the carriage return that it ends with, and the last line does not. -/
theorem IsLine.dropReturns (h : source.IsLine before line after) :
    IsLine ⟨Text.dropReturns source.chars⟩ (Text.dropReturns before)
      (if after = [] then line else Text.dropReturn line) (Text.dropReturns after) := by
  -- what comes before the line ends with a newline, so no carriage return is cut off there
  have hbefore : before.getLast? ≠ some '\r' := by
    obtain rfl | ⟨front, rfl⟩ := h.before_ends
    · exact fun h => by cases h
    · rw [List.getLast?_concat]
      decide
  have hfront : Text.dropReturns before = [] ∨
      ∃ front, Text.dropReturns before = front ++ ['\n'] := by
    obtain rfl | ⟨front, rfl⟩ := h.before_ends
    · exact .inl rfl
    · exact .inr (Text.exists_dropReturns_concat front)
  have hsplit : Text.dropReturns source.chars
      = Text.dropReturns before ++ Text.dropReturns (line ++ after) := by
    rw [h.chars_eq, Text.dropReturns_append fun hlast => absurd hlast hbefore]
  obtain rfl | ⟨rest, rfl⟩ := h.after_begins
  · -- the last line has no newline to lose a carriage return before
    refine ⟨?_, hfront, ?_, .inl rfl⟩
    · rw [chars_dropReturns, hsplit, List.append_nil, if_pos rfl,
        Text.dropReturns_of_not_mem h.not_mem]
      exact congrArg _ (List.append_nil line).symm
    · rw [if_pos rfl]
      exact h.not_mem
  · -- a line that a newline ends
    have hnewline : Text.dropReturns ('\n' :: rest) = '\n' :: Text.dropReturns rest :=
      Text.dropReturns_cons_of_ne (by decide) rest
    have hne : '\n' :: rest ≠ [] := List.cons_ne_nil _ _
    refine ⟨?_, hfront, ?_, .inr ⟨_, hnewline⟩⟩
    · rw [chars_dropReturns, hsplit, Text.dropReturns_line h.not_mem, if_neg hne, hnewline]
    · rw [if_neg hne]
      exact fun hmem => h.not_mem ((Text.dropReturn_sublist line).subset hmem)

/-- **Every line keeps its number**, and loses the carriage return before its newline. -/
theorem line_dropReturns (source : SourceText) (n : Nat) :
    (∀ own, source.EndsWithNewline n → source.line n = own ++ ['\r'] →
      SourceText.line ⟨Text.dropReturns source.chars⟩ n = own) ∧
    (¬(source.EndsWithNewline n ∧ ∃ own, source.line n = own ++ ['\r']) →
      SourceText.line ⟨Text.dropReturns source.chars⟩ n = source.line n) := by
  by_cases hout : n = 0 ∨ 1 + source.chars.count '\n' < n
  · -- neither text has the line
    refine ⟨fun _ hends => absurd hends (not_endsWithNewline hout), fun _ => ?_⟩
    rw [line_eq_nil hout]
    refine line_eq_nil ?_
    rwa [chars_dropReturns, Text.count_newline_dropReturns]
  -- both texts have the line, with as many newlines before it
  obtain ⟨before, line, after, hof, hcount⟩ :=
    source.exists_isLine_of_count (n := n - 1) (by omega)
  obtain rfl : n = before.count '\n' + 1 := by omega
  have hnormal := hof.dropReturns.line_eq
  rw [Text.count_newline_dropReturns] at hnormal
  rw [hof.endsWithNewline_iff, hof.line_eq, hnormal]
  refine ⟨fun own hafter hown => ?_, fun hnot => ?_⟩
  · rw [if_neg hafter, hown, Text.dropReturn_concat]
  · by_cases hafter : after = []
    · rw [if_pos hafter]
    · rw [if_neg hafter]
      refine Text.dropReturn_of_ne fun hlast => hnot ⟨hafter, ?_⟩
      exact List.getLast?_eq_some_iff.1 hlast

end SourceText

variable {files : FileSystem} {path : Path} {text : List Char}

/-- What is read from a file whose bytes are a text. -/
theorem FileSystem.readContents_eq (hpath : path.fault? = none)
    (hread : files.read path = .ok (Text.Utf8.encode text)) (options : LoadOptions) :
    files.readContents options path =
      .ok ⟨if options.normalizeLineEndings then Text.dropReturns text else text⟩ := by
  have htext : files.readText path = .ok text := by
    simp only [readText, hpath, hread, Text.Utf8.decode?_encode]
  rw [readContents, htext]

/-- **Line numbers stay what they are.** A file whose bytes are a text is read as that text, or,
with line endings normalised, as the text without each carriage return that has a newline right
after it; where there is none, both are the same. If all of the text is within reach, both have as
many lines. A line that a newline ends and whose own last codepoint is a carriage return loses this
one, and every other line is the same in both. -/
theorem normalising_keeps_lines (hpath : path.fault? = none)
    (hread : files.read path = .ok (Text.Utf8.encode text)) (extension : List Char) :
    ∃ raw normal,
      files.readContents ⟨extension, false⟩ path = .ok raw ∧
      files.readContents ⟨extension, true⟩ path = .ok normal ∧
      raw.stored = text ∧
      normal.stored = Text.without (Text.isReturnAt text) text ∧
      (¬['\r', '\n'] <:+: text → normal = raw) ∧
      (text.length ≤ SourceText.maxLength →
        raw.chars = raw.stored ∧ normal.chars = normal.stored ∧
        normal.lineTable.starts.length = raw.lineTable.starts.length ∧
        ∀ n,
          (∀ own, raw.EndsWithNewline n → raw.line n = own ++ ['\r'] → normal.line n = own) ∧
          (¬(raw.EndsWithNewline n ∧ ∃ own, raw.line n = own ++ ['\r']) →
            normal.line n = raw.line n)) := by
  refine ⟨⟨text⟩, ⟨Text.dropReturns text⟩, FileSystem.readContents_eq hpath hread _,
    FileSystem.readContents_eq hpath hread _, rfl, Text.dropReturns_eq_without text,
    fun hpair => congrArg SourceText.mk (Text.dropReturns_of_not_infix hpair), fun hwhole => ?_⟩
  have hraw : (SourceText.mk text).chars = text := SourceText.chars_mk hwhole
  have hnormal : (SourceText.mk (Text.dropReturns text)).chars = Text.dropReturns text :=
    SourceText.chars_mk ((Text.dropReturns_sublist text).length_le.trans hwhole)
  refine ⟨hraw, hnormal, ?_, ?_⟩
  · rw [SourceText.length_starts, SourceText.length_starts, hraw, hnormal,
      Text.count_newline_dropReturns]
  · have hlines := SourceText.line_dropReturns ⟨text⟩
    rwa [hraw] at hlines

/-- A file system with the same file at every path. -/
def FileSystem.ofText (text : List Char) : FileSystem :=
  ⟨fun _ => false, fun _ => .error .notDirectory, fun _ => .ok (Text.Utf8.encode text)⟩

/-- Two carriage returns before a newline, and one at the end of the file. -/
theorem normalising_keeps_lines_returns :
    ∃ normal,
      (FileSystem.ofText ['a', '\r', '\r', '\n', 'b', '\r']).readContents .standard ⟨[97]⟩
        = .ok normal ∧
      normal.line 1 = ['a', '\r'] ∧ normal.line 2 = ['b', '\r'] := by
  have hread : (FileSystem.ofText ['a', '\r', '\r', '\n', 'b', '\r']).read ⟨[97]⟩
      = .ok (Text.Utf8.encode ['a', '\r', '\r', '\n', 'b', '\r']) := rfl
  have hpath : Path.fault? ⟨[97]⟩ = none := by decide
  obtain ⟨⟨_⟩, normal, -, hnormal, rfl, -, -, hwhole⟩ :=
    normalising_keeps_lines hpath hread ['t', 'r']
  obtain ⟨-, -, -, hlines⟩ := hwhole (by decide)
  refine ⟨normal, hnormal, (hlines 1).1 ['a', '\r'] ⟨3, rfl, rfl⟩ rfl, (hlines 2).2 ?_⟩
  rintro ⟨⟨stop, hstop, hnewline⟩, -⟩
  obtain rfl : 6 = stop := Option.some.inj hstop
  cases hnewline

/-! ## A newline out of reach -/

/-- A carriage return and a newline, so many letters, and a newline. -/
def Text.longLine (n : Nat) : List Char := '\r' :: '\n' :: (List.replicate n 'a' ++ ['\n'])

theorem Text.dropReturns_longLine (n : Nat) :
    dropReturns (longLine n) = '\n' :: (List.replicate n 'a' ++ ['\n']) := by
  have hreturn : '\r' ∉ '\n' :: (List.replicate n 'a' ++ ['\n']) := by simp
  rw [longLine, dropReturns, if_pos ⟨rfl, rfl⟩]
  exact dropReturns_of_not_infix fun hpair => hreturn (hpair.subset List.mem_cons_self)

namespace SourceText

variable {n : Nat}

/-- The last newline is the first codepoint that is out of reach. -/
theorem length_starts_longLine (hn : n + 2 = maxLength) :
    (mk (Text.longLine n)).lineTable.starts.length = 2 := by
  have hlength : ('\r' :: '\n' :: List.replicate n 'a').length = maxLength := by
    rw [List.length_cons, List.length_cons, List.length_replicate, hn]
  have hchars : (mk (Text.longLine n)).chars = '\r' :: '\n' :: List.replicate n 'a' :=
    chars_mk_append hlength ['\n']
  rw [length_starts, hchars]
  simp [List.count_replicate]

/-- Without the carriage return it is within reach. -/
theorem length_starts_dropReturns_longLine (hn : n + 2 = maxLength) :
    (mk (Text.dropReturns (Text.longLine n))).lineTable.starts.length = 3 := by
  have hlength : ('\n' :: (List.replicate n 'a' ++ ['\n'])).length ≤ maxLength := by
    rw [List.length_cons, List.length_append, List.length_replicate, List.length_singleton]
    exact hn.le
  rw [length_starts, Text.dropReturns_longLine, chars_mk hlength]
  simp [List.count_replicate]

end SourceText

theorem FileSystem.exists_readContents_longLine {n : Nat} (hn : n + 2 = SourceText.maxLength) :
    ∃ raw normal,
      (ofText (Text.longLine n)).readContents ⟨['t', 'r'], false⟩ ⟨[97]⟩ = .ok raw ∧
      (ofText (Text.longLine n)).readContents ⟨['t', 'r'], true⟩ ⟨[97]⟩ = .ok normal ∧
      raw.lineTable.starts.length = 2 ∧ normal.lineTable.starts.length = 3 := by
  have hpath : Path.fault? ⟨[97]⟩ = none := by decide
  have hread : (ofText (Text.longLine n)).read ⟨[97]⟩ =
      .ok (Text.Utf8.encode (Text.longLine n)) := rfl
  exact ⟨⟨Text.longLine n⟩, ⟨Text.dropReturns (Text.longLine n)⟩,
    readContents_eq hpath hread _, readContents_eq hpath hread _,
    SourceText.length_starts_longLine hn, SourceText.length_starts_dropReturns_longLine hn⟩

/-- A file of one codepoint more than a word counts. Read as it is it has two lines, and with its
line endings normalised it has three. -/
theorem newline_comes_within_reach :
    ∃ raw normal,
      (FileSystem.ofText (Text.longLine 4294967293)).readContents ⟨['t', 'r'], false⟩ ⟨[97]⟩
        = .ok raw ∧
      (FileSystem.ofText (Text.longLine 4294967293)).readContents ⟨['t', 'r'], true⟩ ⟨[97]⟩
        = .ok normal ∧
      raw.lineTable.starts.length = 2 ∧ normal.lineTable.starts.length = 3 :=
  FileSystem.exists_readContents_longLine rfl

end Lexis
