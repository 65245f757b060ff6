import Lexis.Piece.Basic
import Lexis.Proofs.Text.Search

/-!
# Gaps

What may stand between tokens, said without reading it.

- `Piece.Skipped`: a text that is a gap where another text follows. Only a comment on the last line
  of a source cares about what follows: nothing does.
- `Piece.comment_of_skipped`, `Piece.comment_of_unclosed`: what a number sign begins is read as a
  gap, or as the fault of a block comment without an end.
- `Piece.comment_cases`: it is one of the two.
-/

namespace Lexis.Piece

/-- The text is a gap where `rest` follows it: a space, a comment up to the end of its line, a
comment up to the end of the source, or a block comment up to its first closing mark. -/
inductive Skipped : List Char → List Char → Prop
  | space (rest : List Char) : Skipped [' '] rest
  | line {body : List Char} (hhead : body.head? ≠ some '\x7b') (hbody : '\n' ∉ body)
    (rest : List Char) : Skipped ('#' :: (body ++ ['\n'])) rest
  | lastLine {body : List Char} (hhead : body.head? ≠ some '\x7b') (hbody : '\n' ∉ body) :
    Skipped ('#' :: body) []
  | block {body : List Char} (hbody : Text.EndsFirst ['\x7d', '#'] body) (rest : List Char) :
    Skipped ('#' :: '\x7b' :: body) rest

variable {text body rest : List Char}

/-- A gap takes at least one codepoint. -/
theorem Skipped.length_pos (h : Skipped text rest) : 0 < text.length := by
  cases h <;> exact Nat.succ_pos _

/-- A gap stays one where less of the text after it is left. -/
theorem Skipped.of_isPrefix {other : List Char} (h : Skipped text rest) (hother : other <+: rest) :
    Skipped text other := by
  cases h with
  | space => exact .space other
  | line hhead hbody => exact .line hhead hbody other
  | lastLine hhead hbody =>
    obtain rfl := List.prefix_nil.1 hother
    exact .lastLine hhead hbody
  | block hbody => exact .block hbody other

/-- A gap that something follows is one whatever follows. -/
theorem Skipped.of_ne_nil (h : Skipped text rest) (hrest : rest ≠ []) (after : List Char) :
    Skipped text after := by
  cases h with
  | space => exact .space after
  | line hhead hbody => exact .line hhead hbody after
  | lastLine => exact absurd rfl hrest
  | block hbody => exact .block hbody after

/-! ## Comments -/

/-- A number sign without an opening brace after it begins a line comment. -/
theorem comment_of_head?_ne (h : rest.head? ≠ some '\x7b') :
    comment rest = gap ('#' :: Text.throughNewline rest) := by
  unfold comment
  split
  · exact absurd rfl h
  · rfl

theorem comment_of_block (h : Text.EndsFirst ['\x7d', '#'] body) (rest : List Char) :
    comment ('\x7b' :: (body ++ rest)) = gap ('#' :: '\x7b' :: body) := by
  have hsearch : Text.throughFirst? ['\x7d', '#'] (body ++ rest) = some body :=
    (Text.throughFirst?_eq_some_iff (by simp)).2 ⟨List.prefix_append body rest, h⟩
  rw [comment, hsearch]

/-- **What a number sign begins is read as the gap it is.** -/
theorem comment_of_skipped (h : Skipped ('#' :: text) rest) :
    comment (text ++ rest) = gap ('#' :: text) := by
  cases h with
  | @line body hhead hbody =>
    -- a line without a codepoint is followed by its newline, which is no opening brace either
    have hne : (body ++ '\n' :: rest).head? ≠ some '\x7b' := by
      cases body with
      | nil => exact fun h => absurd (Option.some.inj h) (by decide)
      | cons c body => exact hhead
    rw [List.append_assoc, List.singleton_append, comment_of_head?_ne hne,
      Text.throughNewline_append hbody]
  | lastLine hhead hbody =>
    rw [List.append_nil, comment_of_head?_ne hhead, Text.throughNewline_of_not_mem hbody]
  | block hbody => exact comment_of_block hbody rest

/-- A block comment without an end is a fault. -/
theorem comment_of_unclosed (h : ¬['\x7d', '#'] <:+: body) :
    comment ('\x7b' :: body) = fault .unterminatedBlockComment 0 (1 + ('\x7b' :: body).length) := by
  rw [comment, (Text.throughFirst?_eq_none_iff (by simp)).2 h]

/-- **A number sign begins a gap, or a block comment without an end.** -/
theorem comment_cases (s : List Char) :
    (∃ text rest, s = text ++ rest ∧ Skipped ('#' :: text) rest) ∨
      ∃ body, s = '\x7b' :: body ∧ ¬['\x7d', '#'] <:+: body := by
  by_cases hblock : s.head? = some '\x7b'
  · obtain ⟨body, rfl⟩ := List.head?_eq_some_iff.1 hblock
    cases hsearch : Text.throughFirst? ['\x7d', '#'] body with
    | none => exact .inr ⟨body, rfl, (Text.throughFirst?_eq_none_iff (by simp)).1 hsearch⟩
    | some text =>
      obtain ⟨⟨rest, rfl⟩, hends⟩ := (Text.throughFirst?_eq_some_iff (by simp)).1 hsearch
      exact .inl ⟨'\x7b' :: text, rest, rfl, .block hends rest⟩
  · left
    obtain ⟨body, hbody, rfl | ⟨rest, rfl⟩⟩ := Text.exists_line s
    · exact ⟨s, [], (List.append_nil s).symm, .lastLine hblock hbody⟩
    · refine ⟨body ++ ['\n'], rest, by simp, .line (fun hhead => hblock ?_) hbody rest⟩
      rw [List.head?_append, hhead]
      rfl

end Lexis.Piece
