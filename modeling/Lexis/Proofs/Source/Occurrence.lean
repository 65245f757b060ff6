import Mathlib.Data.Nat.Find
import Lexis.Proofs.Source.Standing
import Lexis.Proofs.Text.Search

/-!
# Where a mark occurs

A cursor reads up to a mark by trying every place ahead in turn. A mark occurs at an offset when the
codepoints of the text from there on are the mark's. What may be stored behind the text, such as a
null codepoint that shows its end, is no codepoint of the text.

- `SourceText.HasAt`: a mark occurs at an offset, codepoint by codepoint.
- `SourceText.hasAt_iff_behind`: what is stored behind the text adds no occurrence.
- `SourceText.FirstAt`: the first occurrence from an offset on.
- `Cursor.StandsIn.eatThrough_of_firstAt`, `Cursor.StandsIn.eatThrough_of_forall_not`: a search
  ends behind the first occurrence, or else at the end of the text.
- `searches_end_behind_first`: all of it together, with lines.
-/

namespace Lexis

/-! ## Searching a list -/

namespace Text

variable {mark s : List Char}

/-- A search stops where the mark fits for the first time. -/
theorem throughFirst?_of_least {k : Nat} (hmark : mark ≠ []) (hfits : mark <+: s.drop k)
    (hleast : ∀ n < k, ¬mark <+: s.drop n) :
    throughFirst? mark s = some (s.take (k + mark.length)) := by
  induction s generalizing k with
  | nil =>
    rw [List.drop_nil, List.prefix_nil] at hfits
    exact absurd hfits hmark
  | cons c s ih =>
    cases k with
    | zero =>
      have hhere : mark <+: c :: s := hfits
      rw [throughFirst?, if_pos (List.isPrefixOf_iff_prefix.2 hhere), Nat.zero_add,
        ← List.prefix_iff_eq_take.1 hhere]
    | succ k =>
      -- the mark does not fit right here, and one place further on it is one place less away
      have hhere : ¬mark.isPrefixOf (c :: s) = true := fun hpre =>
        hleast 0 (Nat.succ_pos k) (List.isPrefixOf_iff_prefix.1 hpre)
      have hlater := ih hfits fun n hn => hleast (n + 1) (Nat.succ_lt_succ hn)
      rw [throughFirst?, if_neg hhere, hlater, Nat.succ_add, List.take_succ_cons]
      rfl

/-- Reading a line is reading up to a newline, or to the end of the text. -/
theorem throughNewline_eq (s : List Char) :
    throughNewline s = (throughFirst? ['\n'] s).getD s := by
  obtain ⟨body, hbody, rfl | ⟨rest, rfl⟩⟩ := exists_line s
  · rw [throughNewline_of_not_mem hbody, throughFirst?_singleton_eq_none_iff.2 hbody]
    rfl
  · rw [throughNewline_append hbody, throughFirst?_singleton_append hbody]
    rfl

end Text

/-! ## Occurrences -/

namespace SourceText

variable {source : SourceText} {mark : List Char} {start first : Nat}

/-- The mark's codepoints are the ones of the text from an offset on. -/
def HasAt (source : SourceText) (mark : List Char) (first : Nat) : Prop :=
  ∀ n (h : n < mark.length), source.chars[first + n]? = some mark[n]

/-- The first place from `start` on where a mark occurs. -/
structure FirstAt (source : SourceText) (mark : List Char) (start first : Nat) : Prop where
  le : start ≤ first
  hasAt : source.HasAt mark first
  not_before : ∀ n, start ≤ n → n < first → ¬source.HasAt mark n

theorem hasAt_iff : source.HasAt mark first ↔ mark <+: source.chars.drop first := by
  rw [List.prefix_iff_getElem?]
  simp only [HasAt, List.getElem?_drop]

instance : Decidable (source.HasAt mark first) := decidable_of_iff _ hasAt_iff.symm

/-- An occurrence ends inside the text. -/
theorem HasAt.le (hmark : mark ≠ []) (h : source.HasAt mark first) :
    first + mark.length ≤ source.length := by
  have hpos := List.length_pos_iff.2 hmark
  have hle := (hasAt_iff.1 h).length_le
  rw [List.length_drop] at hle
  show _ ≤ source.chars.length
  omega

/-- **What is stored behind the text is no part of an occurrence**, whatever it is: a mark occurs
where it fits what is stored and does not reach beyond the end of the text. -/
theorem hasAt_iff_behind (hmark : mark ≠ []) (behind : List Char) :
    source.HasAt mark first ↔
      mark <+: (source.chars ++ behind).drop first ∧ first + mark.length ≤ source.length := by
  constructor
  · intro h
    refine ⟨(hasAt_iff.1 h).trans ?_, h.le hmark⟩
    rw [List.drop_append]
    exact List.prefix_append _ _
  · rintro ⟨hfits, hle⟩ n hn
    have hlt : first + n < source.chars.length :=
      Nat.lt_of_lt_of_le (Nat.add_lt_add_left hn first) hle
    rw [List.prefix_iff_getElem?] at hfits
    have hstored := hfits n hn
    rwa [List.getElem?_drop, List.getElem?_append_left hlt] at hstored

/-- Where a mark occurs at all, it occurs for the first time. -/
theorem exists_firstAt (h : ∃ first, start ≤ first ∧ source.HasAt mark first) :
    ∃ first, source.FirstAt mark start first := by
  classical
  obtain ⟨hle, hat⟩ := Nat.find_spec h
  exact ⟨Nat.find h, hle, hat, fun n hn hlt hn' => Nat.find_min h hlt ⟨hn, hn'⟩⟩

end SourceText

/-! ## Searching with a cursor -/

namespace Cursor

/-- Reading a line is reading through a newline, whether there is one or not. -/
theorem eatLine_eq (cursor : Cursor) : cursor.eatLine = (cursor.eatThrough ['\n']).2 := by
  rw [eatLine, eatThrough, Text.throughNewline_eq]
  cases Text.throughFirst? ['\n'] cursor.rest <;> rfl

variable {source : SourceText} {cursor : Cursor} {mark : List Char} {first : Nat}

/-- There is one cursor that stands at an offset: the one that has moved there from the start. -/
theorem StandsIn.eq_skip (h : cursor.StandsIn source) :
    cursor = source.cursor.skip cursor.position := by
  obtain ⟨hsource, -, hlocation, hrest⟩ := h
  rw [SourceText.locationAt_eq] at hlocation
  cases cursor
  exact mk.injEq .. ▸ ⟨hsource, hlocation, hrest⟩

theorem StandsIn.skip_eq (h : cursor.StandsIn source) (n : Nat) :
    cursor.skip n = source.cursor.skip (cursor.position + n) := by
  rw [← skip_skip, ← h.eq_skip]

/-- What a cursor has ahead begins with a text where the text occurs. -/
theorem StandsIn.startsWith_iff (h : cursor.StandsIn source) :
    cursor.startsWith mark = true ↔ source.HasAt mark cursor.position := by
  rw [startsWith, List.isPrefixOf_iff_prefix, SourceText.hasAt_iff, h.rest_eq]

/-- A mark that fits what is ahead occurs so much further on. -/
theorem StandsIn.isPrefix_drop_iff (h : cursor.StandsIn source) (n : Nat) :
    mark <+: cursor.rest.drop n ↔ source.HasAt mark (cursor.position + n) := by
  rw [SourceText.hasAt_iff, h.rest_eq, List.drop_drop]

/-- **A search ends right behind the first occurrence.** -/
theorem StandsIn.eatThrough_of_firstAt (h : cursor.StandsIn source) (hmark : mark ≠ [])
    (hfirst : source.FirstAt mark cursor.position first) :
    cursor.eatThrough mark = (true, source.cursor.skip (first + mark.length)) := by
  obtain ⟨k, rfl⟩ := Nat.exists_eq_add_of_le hfirst.le
  have hfound : Text.throughFirst? mark cursor.rest
      = some (cursor.rest.take (k + mark.length)) := by
    refine Text.throughFirst?_of_least hmark ((h.isPrefix_drop_iff k).2 hfirst.hasAt) ?_
    intro n hn hfits
    exact hfirst.not_before _ (Nat.le_add_right _ n) (Nat.add_lt_add_left hn _)
      ((h.isPrefix_drop_iff n).1 hfits)
  have hlength : (cursor.rest.take (k + mark.length)).length = k + mark.length := by
    have hle := hfirst.hasAt.le hmark
    rw [List.length_take, h.length_rest]
    omega
  rw [eatThrough, hfound]
  show (true, cursor.skip (cursor.rest.take (k + mark.length)).length) = _
  rw [hlength, h.skip_eq, Nat.add_assoc]

/-- **Without an occurrence a search ends at the end of the text.** -/
theorem StandsIn.eatThrough_of_forall_not (h : cursor.StandsIn source) (hmark : mark ≠ [])
    (hnone : ∀ first, cursor.position ≤ first → ¬source.HasAt mark first) :
    cursor.eatThrough mark = (false, source.cursor.skip source.length) := by
  have hnone : Text.throughFirst? mark cursor.rest = none := by
    rw [Text.throughFirst?_eq_none_iff hmark]
    rintro ⟨before, after, hrest⟩
    refine hnone (cursor.position + before.length) (Nat.le_add_right _ _) ?_
    rw [← h.isPrefix_drop_iff, ← hrest, List.append_assoc, List.drop_left]
    exact List.prefix_append _ _
  have hend : cursor.position + (source.length - cursor.position) = source.length :=
    Nat.add_sub_of_le h.position_le
  rw [eatThrough, hnone]
  show (false, cursor.skip cursor.rest.length) = _
  rw [h.skip_eq, h.length_rest, hend]

theorem StandsIn.eatThrough_eq_true_iff (h : cursor.StandsIn source) (hmark : mark ≠ []) :
    (cursor.eatThrough mark).1 = true ↔
      ∃ first, cursor.position ≤ first ∧ source.HasAt mark first := by
  constructor
  · intro hfound
    refine Classical.byContradiction fun hnone => ?_
    rw [h.eatThrough_of_forall_not hmark fun first hle hat => hnone ⟨first, hle, hat⟩] at hfound
    cases hfound
  · intro hoccurs
    obtain ⟨first, hfirst⟩ := SourceText.exists_firstAt hoccurs
    rw [h.eatThrough_of_firstAt hmark hfirst]

/-- A text that the cursor has ahead is passed over, and nothing else is. -/
theorem StandsIn.eatText_eq (h : cursor.StandsIn source) (text : List Char) :
    cursor.eatText text =
      if source.HasAt text cursor.position then
        (true, source.cursor.skip (cursor.position + text.length))
      else (false, cursor) := by
  rw [eatText]
  by_cases hat : source.HasAt text cursor.position
  · rw [if_pos hat, if_pos (h.startsWith_iff.2 hat), h.skip_eq]
  · rw [if_neg hat, if_neg (mt h.startsWith_iff.1 hat)]

end Cursor

/-- **Searches end behind the first occurrence.** From wherever it stands in a text, a cursor reads
through a mark exactly if the mark occurs further on, and ends right behind its first occurrence;
otherwise it ends at the end of the text. It reads a line through the first newline, or to the end
of the text, and passes over a text exactly if this occurs right where it stands. Nothing behind
the end of the text takes part, whatever is stored there: occurrences end at the end of the text,
and a mark with a null codepoint is not found where the text ahead has none. -/
theorem searches_end_behind_first {source : SourceText} {cursor : Cursor}
    (h : cursor.StandsIn source) :
    (∀ mark : List Char, mark ≠ [] →
      ((cursor.eatThrough mark).1 = true ↔
        ∃ first, cursor.position ≤ first ∧ source.HasAt mark first) ∧
      (∀ first, source.FirstAt mark cursor.position first →
        cursor.eatThrough mark = (true, source.cursor.skip (first + mark.length))) ∧
      ((cursor.eatThrough mark).1 = false →
        (cursor.eatThrough mark).2 = source.cursor.skip source.length) ∧
      (∀ behind first, source.HasAt mark first ↔
        mark <+: (source.chars ++ behind).drop first ∧ first + mark.length ≤ source.length) ∧
      ('\x00' ∈ mark → '\x00' ∉ cursor.rest → (cursor.eatThrough mark).1 = false)) ∧
    (∀ first, source.FirstAt ['\n'] cursor.position first →
      cursor.eatLine = source.cursor.skip (first + 1)) ∧
    ((∀ first, cursor.position ≤ first → source.chars[first]? ≠ some '\n') →
      cursor.eatLine = source.cursor.skip source.length) ∧
    ∀ text : List Char,
      (cursor.startsWith text = true ↔ source.HasAt text cursor.position) ∧
      cursor.eatText text =
        if source.HasAt text cursor.position then
          (true, source.cursor.skip (cursor.position + text.length))
        else (false, cursor) := by
  have hnewline : ['\n'] ≠ [] := List.cons_ne_nil _ _
  refine ⟨fun mark hmark => ⟨h.eatThrough_eq_true_iff hmark,
    fun first => h.eatThrough_of_firstAt hmark, fun hnot => ?_,
    fun behind first => SourceText.hasAt_iff_behind hmark behind, fun hnull hahead => ?_⟩,
    fun first hfirst => ?_, fun hnone => ?_, fun text => ⟨h.startsWith_iff, h.eatText_eq text⟩⟩
  · -- a search that fails has found no occurrence
    have hnone : ∀ first, cursor.position ≤ first → ¬source.HasAt mark first := by
      intro first hle hat
      rw [(h.eatThrough_eq_true_iff hmark).2 ⟨first, hle, hat⟩] at hnot
      cases hnot
    rw [h.eatThrough_of_forall_not hmark hnone]
  · -- an occurrence would have the null codepoint ahead
    refine Bool.eq_false_iff.2 fun hfound => ?_
    obtain ⟨first, hle, hat⟩ := (h.eatThrough_eq_true_iff hmark).1 hfound
    obtain ⟨k, rfl⟩ := Nat.exists_eq_add_of_le hle
    have hfits := (h.isPrefix_drop_iff k).2 hat
    exact hahead (List.mem_of_mem_drop (hfits.subset hnull))
  · rw [Cursor.eatLine_eq, h.eatThrough_of_firstAt hnewline hfirst]
    rfl
  · -- a newline is a mark of one codepoint
    have hnone : ∀ first, cursor.position ≤ first → ¬source.HasAt ['\n'] first :=
      fun first hle hat => hnone first hle (hat 0 Nat.one_pos)
    rw [Cursor.eatLine_eq, h.eatThrough_of_forall_not hnewline hnone]

/-- A mark that overlaps itself, with a near match before it, and a null codepoint behind the text
that would complete another mark. -/
theorem searches_end_behind_first_overlap :
    Cursor.StandsIn ⟨['x', 'a', 'a', 'a', 'b']⟩
        (SourceText.cursor ⟨['x', 'a', 'a', 'a', 'b']⟩).advance ∧
      (SourceText.cursor ⟨['x', 'a', 'a', 'a', 'b']⟩).advance.eatThrough ['a', 'a', 'b'] =
        (true, (SourceText.cursor ⟨['x', 'a', 'a', 'a', 'b']⟩).skip 5) ∧
      ((SourceText.cursor ⟨['x', 'a', 'a', 'a', 'b']⟩).advance.eatThrough ['b', '\x00']).1 =
        false := by
  have hstands : Cursor.StandsIn ⟨['x', 'a', 'a', 'a', 'b']⟩
      (SourceText.cursor ⟨['x', 'a', 'a', 'a', 'b']⟩).advance :=
    (Cursor.standsIn_cursor _).advance
  obtain ⟨hmarks, -⟩ := searches_end_behind_first hstands
  refine ⟨hstands, (hmarks ['a', 'a', 'b'] (by simp)).2.1 2 ⟨by decide, by decide, ?_⟩,
    (hmarks ['b', '\x00'] (by simp)).2.2.2.2 (by decide) (by decide)⟩
  intro n hle hlt
  obtain rfl : n = 1 := Nat.le_antisymm (Nat.le_of_lt_succ hlt) hle
  decide

end Lexis
