import Lexis.Source.LineTable
import Lexis.Proofs.Source.Standing
import Lexis.Proofs.Text.Search

/-!
# Lines and places

The place of an offset is found by reading the text up to there, and the lines of a text are found
by reading it once from end to end. Cut at one line, a text shows what both say of that line.

- `SourceText.IsLine`: a line of a text, with what comes before it and after it.
- `SourceText.IsLine.locationAt`: the places in a line.
- `SourceText.IsLine.start?_eq`, `SourceText.IsLine.stop?_eq`: the bounds of a line in the table.
- `SourceText.exists_isLine_of_le`, `SourceText.exists_isLine_of_count`: every offset lies in a
  line, and there are as many lines as newlines and one more.
- `Location.pageOrder`: places by line and column.
- `line_table_inverts_places`: all of it together.
-/

namespace Lexis

/-! ## Counting on -/

namespace Location

/-- Without a newline all that changes is the column. -/
theorem after_of_not_mem (place : Location) {text : List Char} (h : '\n' ∉ text) :
    place.after text =
      ⟨place.offset + text.length, place.line, place.column + text.length⟩ := by
  induction text generalizing place with
  | nil => rfl
  | cons c text ih =>
    obtain ⟨hc, htext⟩ := not_or.1 (mt List.mem_cons.2 h)
    rw [after_cons, ih _ htext, step, if_neg (Ne.symm hc), List.length_cons]
    simp only [mk.injEq, true_and]
    omega

/-- Every newline opens a line. -/
theorem line_after (place : Location) (text : List Char) :
    (place.after text).line = place.line + text.count '\n' := by
  induction text generalizing place with
  | nil => rfl
  | cons c text ih =>
    rw [after_cons, ih, step]
    by_cases hc : c = '\n'
    · rw [if_pos hc, hc, List.count_cons_self]
      show place.line + 1 + text.count '\n' = _
      omega
    · rw [if_neg hc, List.count_cons_of_ne hc]

/-- The place at the start of a text, or right after a newline, is the first of its line. -/
theorem start_after_of_ends {before : List Char}
    (h : before = [] ∨ ∃ front, before = front ++ ['\n']) :
    start.after before = ⟨before.length, before.count '\n' + 1, 1⟩ := by
  obtain rfl | ⟨front, rfl⟩ := h
  · rfl
  · have hcount : (front ++ ['\n']).count '\n' = front.count '\n' + 1 := by
      rw [List.count_append, List.count_singleton_self]
    rw [after_append, hcount, List.length_append]
    show (start.after front).step '\n' = _
    rw [step, if_pos rfl, offset_after, line_after]
    show Location.mk (0 + front.length + 1) (1 + front.count '\n' + 1) 1 = _
    rw [Nat.zero_add, Nat.add_comm 1]
    rfl

/-- Places by line, and by column in a line. -/
def pageOrder (a b : Location) : Ordering :=
  (compare a.line b.line).then (compare a.column b.column)

theorem pageOrder_self (place : Location) : place.pageOrder place = .eq := by
  rw [pageOrder, Nat.compare_eq_eq.2 rfl, Nat.compare_eq_eq.2 rfl]
  rfl

theorem pageOrder_swap (a b : Location) : a.pageOrder b = (b.pageOrder a).swap := by
  rw [pageOrder, pageOrder, Ordering.swap_then, Nat.compare_swap, Nat.compare_swap]

/-- Whatever is passed over, the place after it lies further on the page. -/
theorem pageOrder_after (place : Location) {text : List Char} (h : text ≠ []) :
    place.pageOrder (place.after text) = .lt := by
  have hline := place.line_after text
  by_cases hmem : '\n' ∈ text
  · have hpos := List.count_pos_iff.2 hmem
    have hlt : compare place.line (place.after text).line = .lt := Nat.compare_eq_lt.2 (by omega)
    rw [pageOrder, hlt]
    rfl
  · have hlength := List.length_pos_iff.2 h
    rw [pageOrder, place.after_of_not_mem hmem]
    have hline : compare place.line place.line = .eq := Nat.compare_eq_eq.2 rfl
    have hlt : compare place.column (place.column + text.length) = .lt :=
      Nat.compare_eq_lt.2 (by omega)
    rw [hline, hlt]
    rfl

end Location

/-! ## The table -/

theorem offsetsAfterNewlines_append (offset : Nat) (s t : List Char) :
    offsetsAfterNewlines offset (s ++ t)
      = offsetsAfterNewlines offset s ++ offsetsAfterNewlines (offset + s.length) t := by
  induction s generalizing offset with
  | nil => rfl
  | cons c s ih =>
    rw [List.cons_append, offsetsAfterNewlines, offsetsAfterNewlines, ih, List.length_cons,
      Nat.add_right_comm, Nat.add_assoc offset]
    split <;> rfl

theorem offsetsAfterNewlines_of_not_mem (offset : Nat) {s : List Char} (h : '\n' ∉ s) :
    offsetsAfterNewlines offset s = [] := by
  induction s generalizing offset with
  | nil => rfl
  | cons c s ih =>
    obtain ⟨hc, hs⟩ := not_or.1 (mt List.mem_cons.2 h)
    rw [offsetsAfterNewlines, if_neg (Ne.symm hc), ih _ hs]

/-- There is one for every newline. -/
theorem length_offsetsAfterNewlines (offset : Nat) (s : List Char) :
    (offsetsAfterNewlines offset s).length = s.count '\n' := by
  induction s generalizing offset with
  | nil => rfl
  | cons c s ih =>
    rw [offsetsAfterNewlines]
    by_cases hc : c = '\n'
    · rw [if_pos hc, hc, List.count_cons_self, List.length_cons, ih]
    · rw [if_neg hc, List.count_cons_of_ne hc, ih]

/-- A line that starts somewhere also stops. -/
theorem LineTable.stop?_isSome_iff {lines : LineTable} {n : Nat} :
    (lines.stop? n).isSome ↔ (lines.start? n).isSome := by
  rw [LineTable.stop?]
  cases lines.start? n with
  | none => rfl
  | some first => cases lines.starts[n]? <;> rfl

namespace SourceText

/-- `line` is a line of the text, without its newline: `before` comes before it and ends with the
newline of the line before, if there is one, and `after` comes after it and begins with its own. -/
structure IsLine (source : SourceText) (before line after : List Char) : Prop where
  chars_eq : source.chars = before ++ (line ++ after)
  before_ends : before = [] ∨ ∃ front, before = front ++ ['\n']
  not_mem : '\n' ∉ line
  after_begins : after = [] ∨ ∃ rest, after = '\n' :: rest

variable {source : SourceText} {before line own more after : List Char}

/-- What the table says starts at a line, and after it. -/
theorem IsLine.drop_starts (h : source.IsLine before line after) :
    source.lineTable.starts.drop (before.count '\n')
      = before.length :: offsetsAfterNewlines (before.length + line.length) after := by
  have hafter : offsetsAfterNewlines 0 source.chars
      = offsetsAfterNewlines 0 before
        ++ offsetsAfterNewlines (before.length + line.length) after := by
    rw [h.chars_eq, offsetsAfterNewlines_append, offsetsAfterNewlines_append,
      offsetsAfterNewlines_of_not_mem _ h.not_mem, Nat.zero_add]
    rfl
  rw [lineTable, hafter]
  obtain rfl | ⟨front, rfl⟩ := h.before_ends
  · rfl
  · have hcount : (front ++ ['\n']).count '\n' = front.count '\n' + 1 := by
      rw [List.count_append, List.count_singleton_self]
    have hlength : (offsetsAfterNewlines 0 front).length = front.count '\n' :=
      length_offsetsAfterNewlines 0 front
    rw [offsetsAfterNewlines_append, hcount, List.drop_succ_cons, List.append_assoc, ← hlength,
      List.drop_left, Nat.zero_add, List.length_append]
    rfl

theorem IsLine.start?_eq (h : source.IsLine before line after) :
    source.lineTable.start? (before.count '\n' + 1) = some before.length := by
  have hstart : source.lineTable.starts[before.count '\n' + 0]? = some before.length := by
    rw [← List.getElem?_drop, h.drop_starts]
    rfl
  exact hstart

/-- A line ends right before the newline that the next one follows, and the last line with the
text. Either way the clamp to the line's start changes nothing. -/
theorem IsLine.stop?_eq (h : source.IsLine before line after) :
    source.lineTable.stop? (before.count '\n' + 1) = some (before.length + line.length) := by
  have hnext : source.lineTable.starts[before.count '\n' + 1]?
      = (offsetsAfterNewlines (before.length + line.length) after)[0]? := by
    rw [← List.getElem?_drop, h.drop_starts]
    rfl
  rw [LineTable.stop?, h.start?_eq, hnext]
  obtain rfl | ⟨rest, rfl⟩ := h.after_begins
  · have hlength : source.lineTable.length = before.length + line.length := by
      show source.chars.length = _
      rw [h.chars_eq, List.length_append, List.append_nil]
    show some (max source.lineTable.length before.length) = _
    rw [hlength]
    exact congrArg some (Nat.max_eq_left (Nat.le_add_right _ _))
  · show some (max (before.length + line.length + 1 - 1) before.length) = _
    exact congrArg some (Nat.max_eq_left (Nat.le_add_right _ _))

theorem IsLine.slice_eq (h : source.IsLine before line after) :
    source.slice before.length (before.length + line.length) = line := by
  rw [slice, h.chars_eq, List.take_length_add_append, List.drop_left, List.take_left]

theorem IsLine.line_eq (h : source.IsLine before line after) :
    source.line (before.count '\n' + 1) = line := by
  rw [SourceText.line, h.start?_eq, h.stop?_eq]
  exact h.slice_eq

/-- The place of an offset tells which line it lies in, and how far on. -/
theorem IsLine.locationAt (h : source.IsLine before (own ++ more) after) :
    source.locationAt (before.length + own.length)
      = ⟨before.length + own.length, before.count '\n' + 1, own.length + 1⟩ := by
  have hown : '\n' ∉ own := fun hmem => h.not_mem (List.mem_append_left _ hmem)
  have htake : source.chars.take (before.length + own.length) = before ++ own := by
    rw [h.chars_eq, List.append_assoc, List.take_length_add_append, List.take_left]
  rw [SourceText.locationAt_eq, htake, Location.after_append,
    Location.start_after_of_ends h.before_ends, Location.after_of_not_mem _ hown]
  show Location.mk _ _ _ = _
  rw [Nat.add_comm 1]

/-! ## Every line -/

/-- A text ends with what follows its last newline. -/
theorem exists_lastLine (s : List Char) :
    ∃ before own, s = before ++ own ∧ (before = [] ∨ ∃ front, before = front ++ ['\n'])
      ∧ '\n' ∉ own := by
  obtain ⟨own, hown, hs⟩ := Text.exists_line s.reverse
  have hmem : '\n' ∉ own.reverse := fun h => hown (List.mem_reverse.1 h)
  obtain hs | ⟨rest, hs⟩ := hs
  · exact ⟨[], own.reverse, by rw [← hs, List.reverse_reverse]; rfl, .inl rfl, hmem⟩
  · refine ⟨rest.reverse ++ ['\n'], own.reverse, ?_, .inr ⟨rest.reverse, rfl⟩, hmem⟩
    rw [← List.reverse_reverse s, hs]
    simp

/-- And it begins with what its first newline follows. -/
theorem exists_firstLine (s : List Char) :
    ∃ more after, s = more ++ after ∧ '\n' ∉ more
      ∧ (after = [] ∨ ∃ rest, after = '\n' :: rest) := by
  obtain ⟨more, hmore, rfl | ⟨rest, rfl⟩⟩ := Text.exists_line s
  · exact ⟨_, [], (List.append_nil _).symm, hmore, .inl rfl⟩
  · exact ⟨more, _, rfl, hmore, .inr ⟨rest, rfl⟩⟩

/-- Every offset lies in a line, or at its end. -/
theorem exists_isLine_of_le {n : Nat} (h : n ≤ source.length) :
    ∃ before own more after, source.IsLine before (own ++ more) after
      ∧ n = before.length + own.length := by
  obtain ⟨before, own, htake, hbefore, hown⟩ := exists_lastLine (source.chars.take n)
  obtain ⟨more, after, hdrop, hmore, hafter⟩ := exists_firstLine (source.chars.drop n)
  refine ⟨before, own, more, after, ⟨?_, hbefore, ?_, hafter⟩, ?_⟩
  · rw [← List.take_append_drop n source.chars, htake, hdrop, List.append_assoc, List.append_assoc]
  · exact fun hmem => (List.mem_append.1 hmem).elim hown hmore
  · rw [← List.length_append, ← htake, List.length_take_of_le h]

/-- After a line comes its newline, and then the next line. -/
theorem IsLine.exists_next {rest : List Char} (h : source.IsLine before line ('\n' :: rest)) :
    ∃ next after, rest = next ++ after
      ∧ source.IsLine (before ++ (line ++ ['\n'])) next after := by
  obtain ⟨next, after, rfl, hnext, hafter⟩ := exists_firstLine rest
  have hends : before ++ line ++ ['\n'] = before ++ (line ++ ['\n']) := List.append_assoc _ _ _
  refine ⟨next, after, rfl, ?_, .inr ⟨before ++ line, hends.symm⟩, hnext, hafter⟩
  rw [h.chars_eq]
  simp

theorem IsLine.count_next (h : source.IsLine before line after) :
    (before ++ (line ++ ['\n'])).count '\n' = before.count '\n' + 1 := by
  rw [List.count_append, List.count_append, List.count_eq_zero_of_not_mem h.not_mem,
    List.count_singleton_self]

/-- There is a line for every newline of the text, and one more. -/
theorem exists_isLine_of_count {n : Nat} (h : n ≤ source.chars.count '\n') :
    ∃ before line after, source.IsLine before line after ∧ before.count '\n' = n := by
  induction n with
  | zero =>
    obtain ⟨line, after, hchars, hline, hafter⟩ := exists_firstLine source.chars
    exact ⟨[], line, after, ⟨hchars, .inl rfl, hline, hafter⟩, rfl⟩
  | succ n ih =>
    obtain ⟨before, line, after, hof, rfl⟩ := ih (by omega)
    obtain rfl | ⟨rest, rfl⟩ := hof.after_begins
    · -- the last line has all newlines before it
      rw [hof.chars_eq, List.count_append, List.append_nil,
        List.count_eq_zero_of_not_mem hof.not_mem] at h
      omega
    · obtain ⟨next, after, -, hnext⟩ := hof.exists_next
      exact ⟨_, next, after, hnext, hof.count_next⟩

/-- From any line on, lines with a newline between them are the rest of the text. -/
theorem IsLine.intercalate_eq (h : source.IsLine before line after) :
    ['\n'].intercalate
        ((List.range' (before.count '\n' + 1) (after.count '\n' + 1)).map source.line)
      = line ++ after := by
  generalize hcount : after.count '\n' = lines
  induction lines generalizing before line after with
  -- the last line has no newline behind it
  | zero =>
    obtain rfl | ⟨rest, rfl⟩ := h.after_begins
    · rw [List.range'_one, List.map_singleton, h.line_eq]
      simp
    · rw [List.count_cons_self] at hcount
      omega
  -- a newline leads to the next line, from which on the equation holds
  | succ lines ih =>
    obtain rfl | ⟨rest, rfl⟩ := h.after_begins
    · cases hcount
    · obtain ⟨next, after, rfl, hnext⟩ := h.exists_next
      have hrest : after.count '\n' = lines := by
        rw [List.count_cons_self, List.count_append,
          List.count_eq_zero_of_not_mem hnext.not_mem] at hcount
        omega
      have hlater := ih hnext hrest
      rw [h.count_next, List.range'_succ, List.map_cons] at hlater
      rw [List.range'_succ, List.range'_succ, List.map_cons, List.map_cons,
        List.intercalate_cons_cons, hlater, h.line_eq]
      simp

/-- All lines with newlines between them are the text. -/
theorem intercalate_lines (source : SourceText) :
    ['\n'].intercalate ((List.range' 1 (1 + source.chars.count '\n')).map source.line) =
      source.chars := by
  -- cut at its first line, a text is that line and the others
  have hfirst : 0 ≤ source.chars.count '\n' := Nat.zero_le _
  obtain ⟨before, line, after, hof, hcount⟩ := exists_isLine_of_count hfirst
  obtain rfl : before = [] := by
    obtain rfl | ⟨front, rfl⟩ := hof.before_ends
    · rfl
    · rw [List.count_append, List.count_singleton_self] at hcount
      omega
  have hlines : source.chars.count '\n' = after.count '\n' := by
    rw [hof.chars_eq, List.nil_append, List.count_append,
      List.count_eq_zero_of_not_mem hof.not_mem, Nat.zero_add]
  rw [hlines, Nat.add_comm 1]
  exact hof.intercalate_eq.trans hof.chars_eq.symm

/-- The table has a start for every newline of the text, and one more. -/
theorem length_starts (source : SourceText) :
    source.lineTable.starts.length = source.chars.count '\n' + 1 :=
  congrArg (· + 1) (length_offsetsAfterNewlines 0 source.chars)

theorem start?_isSome_iff {n : Nat} :
    (source.lineTable.start? n).isSome ↔ 1 ≤ n ∧ n ≤ 1 + source.chars.count '\n' := by
  cases n with
  | zero => simp [LineTable.start?]
  | succ n =>
    rw [LineTable.start?, isSome_getElem?, length_starts]
    omega

/-- A text has nothing in the lines that it has not. -/
theorem line_eq_nil {n : Nat} (h : n = 0 ∨ 1 + source.chars.count '\n' < n) :
    source.line n = [] := by
  have hstart : source.lineTable.start? n = none := by
    rw [← Option.not_isSome_iff_eq_none, start?_isSome_iff]
    omega
  rw [line, hstart]

/-- The bounds of a line in the table are those of a line of the text. -/
theorem exists_isLine_of_start? {n first : Nat} (h : source.lineTable.start? n = some first) :
    ∃ before line after, source.IsLine before line after ∧ n = before.count '\n' + 1
      ∧ first = before.length := by
  obtain ⟨hpos, hle⟩ := start?_isSome_iff.1 (Option.isSome_of_eq_some h)
  obtain ⟨before, line, after, hof, hcount⟩ :=
    source.exists_isLine_of_count (n := n - 1) (by omega)
  obtain rfl : n = before.count '\n' + 1 := by omega
  rw [hof.start?_eq] at h
  exact ⟨before, line, after, hof, rfl, (Option.some.inj h).symm⟩

/-- **Places compare as their offsets do**, by line and column alone. -/
theorem pageOrder_locationAt {m n : Nat} (hm : m ≤ source.length) (hn : n ≤ source.length) :
    (source.locationAt m).pageOrder (source.locationAt n) = compare m n := by
  have hfurther {m n : Nat} (hlt : m < n) (hn : n ≤ source.length) :
      (source.locationAt m).pageOrder (source.locationAt n) = .lt := by
    have hpassed : (source.chars.drop m).take (n - m) ≠ [] := by
      have hlength : source.chars.length = source.length := rfl
      refine List.ne_nil_of_length_pos ?_
      rw [List.length_take, List.length_drop]
      omega
    have hon := (source.locationAt m).pageOrder_after hpassed
    rwa [← locationAt_add, Nat.add_sub_cancel' (Nat.le_of_lt hlt)] at hon
  rcases Nat.lt_trichotomy m n with hlt | rfl | hgt
  · rw [hfurther hlt hn, Nat.compare_eq_lt.2 hlt]
  · rw [Location.pageOrder_self, Nat.compare_eq_eq.2 rfl]
  · rw [Location.pageOrder_swap, hfurther hgt hm, Nat.compare_eq_gt.2 hgt]
    rfl

/-- The offset says no more than line and column do. -/
theorem order_locationAt {m n : Nat} (hm : m ≤ source.length) (hn : n ≤ source.length) :
    (source.locationAt m).order (source.locationAt n)
      = (source.locationAt m).pageOrder (source.locationAt n) := by
  show (compare (source.locationAt m).offset (source.locationAt n).offset).then
    ((source.locationAt m).pageOrder (source.locationAt n)) = _
  rw [offset_locationAt hm, offset_locationAt hn, pageOrder_locationAt hm hn]
  exact Ordering.then_self

end SourceText

/-- **The table of lines inverts the counting of places.** The place of an offset tells the line
that it lies in, and how far from the start of that line; so the line's start and the column lead
back to the offset. A text has as many lines as newlines and one more. No line has a newline in it,
and all lines with newlines between them are the text. So places lie further on the page, by line
and then by column, the further on their offsets are, and their order is no other. -/
theorem line_table_inverts_places (source : SourceText) :
    (∀ n ≤ source.length, ∀ place, source.locationAt n = place →
      place.offset = n ∧ 1 ≤ place.column ∧ place.column - 1 ≤ n ∧
      ∃ first last, source.lineTable.start? place.line = some first ∧
        source.lineTable.stop? place.line = some last ∧
        first = n - (place.column - 1) ∧ first ≤ n ∧ n ≤ last ∧ first + place.column - 1 = n) ∧
    (∀ n, ((source.lineTable.start? n).isSome ↔ 1 ≤ n ∧ n ≤ 1 + source.chars.count '\n') ∧
      ((source.lineTable.stop? n).isSome ↔ 1 ≤ n ∧ n ≤ 1 + source.chars.count '\n')) ∧
    (∀ n first last, source.lineTable.start? n = some first →
      source.lineTable.stop? n = some last →
        first ≤ last ∧ last ≤ source.length ∧ source.line n = source.slice first last ∧
        '\n' ∉ source.line n) ∧
    ['\n'].intercalate ((List.range' 1 (1 + source.chars.count '\n')).map source.line) =
      source.chars ∧
    ∀ m ≤ source.length, ∀ n ≤ source.length,
      (source.locationAt m).pageOrder (source.locationAt n) = compare m n ∧
      (source.locationAt m).order (source.locationAt n) =
        (source.locationAt m).pageOrder (source.locationAt n) := by
  refine ⟨?_, fun n => ⟨SourceText.start?_isSome_iff, ?_⟩, ?_, ?_, ?_⟩
  · -- an offset cuts its line in two, and the column counts the first part
    rintro n hn place rfl
    obtain ⟨before, own, more, after, hof, rfl⟩ := SourceText.exists_isLine_of_le hn
    rw [hof.locationAt]
    refine ⟨rfl, Nat.succ_pos _, Nat.le_add_left _ _, before.length,
      before.length + (own ++ more).length, hof.start?_eq, hof.stop?_eq, ?_, ?_, ?_, ?_⟩
    · show before.length = before.length + own.length - (own.length + 1 - 1)
      omega
    · exact Nat.le_add_right _ _
    · rw [List.length_append]
      omega
    · show before.length + (own.length + 1) - 1 = _
      omega
  · -- a line that starts has an end
    rw [LineTable.stop?_isSome_iff]
    exact SourceText.start?_isSome_iff
  · -- a line lies between its start and its end
    intro n first last hfirst hlast
    obtain ⟨before, line, after, hof, rfl, rfl⟩ := SourceText.exists_isLine_of_start? hfirst
    rw [hof.stop?_eq, Option.some.injEq] at hlast
    subst hlast
    rw [hof.line_eq, hof.slice_eq]
    refine ⟨Nat.le_add_right _ _, ?_, rfl, hof.not_mem⟩
    show _ ≤ source.chars.length
    rw [hof.chars_eq, List.length_append, List.length_append]
    omega
  · exact source.intercalate_lines
  · exact fun m hm n hn =>
      ⟨SourceText.pageOrder_locationAt hm hn, SourceText.order_locationAt hm hn⟩

/-- The end of a text with an empty line in it and no newline after its last line. -/
theorem line_table_inverts_places_end :
    (SourceText.lineTable ⟨['a', '\n', '\n', 'b']⟩).start? 3 = some 3 ∧
      '\n' ∉ SourceText.line ⟨['a', '\n', '\n', 'b']⟩ 2 ∧
      (SourceText.locationAt ⟨['a', '\n', '\n', 'b']⟩ 1).pageOrder
        (SourceText.locationAt ⟨['a', '\n', '\n', 'b']⟩ 2) = .lt := by
  obtain ⟨hplaces, -, hlines, -, horder⟩ :=
    line_table_inverts_places ⟨['a', '\n', '\n', 'b']⟩
  obtain ⟨-, -, -, first, last, hfirst, -, rfl, -⟩ := hplaces 4 (by decide) ⟨4, 3, 2⟩ rfl
  exact ⟨hfirst, (hlines 2 2 2 rfl rfl).2.2.2, (horder 1 (by decide) 2 (by decide)).1⟩

end Lexis
