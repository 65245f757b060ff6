/-!
# The items of a quoted literal

Between its delimiters a character literal holds one item and a string literal any number of them.
An item is a codepoint that stands for itself, or an escape: a backslash, then a delimiter or a
backslash, or the number of a codepoint in one to eight hexadecimal digits. A run of digits is
always taken as a whole.

- `Text.isHexDigit`: the sixteen digits, in either case.
- `Item`: one item; `Item.text` is how it is written.
- `Item.read`: the item that a text begins with and what follows it, or why there is none.
- `Item.text_append_of_read`, `Item.length_lt_of_read`: reading loses nothing, and gets on.
-/

namespace Lexis

/-- An ASCII digit, or a letter from `a` to `f` in either case. -/
def Text.isHexDigit (c : Char) : Bool :=
  c.isDigit || ('a' ≤ c && c ≤ 'f') || ('A' ≤ c && c ≤ 'F')

/-- One item of a character or string literal. -/
inductive Item where
  /-- A codepoint that stands for itself. -/
  | verbatim (c : Char)
  /-- A backslash before a delimiter or another backslash. -/
  | escaped (c : Char)
  /-- A backslash before the number of a codepoint. -/
  | numbered (digits : List Char)
  deriving DecidableEq, Repr

namespace Item

/-- How an item is written. -/
def text : Item → List Char
  | verbatim c => [c]
  | escaped c => ['\\', c]
  | numbered digits => '\\' :: digits

/-- Why no item can be read. -/
inductive Fault where
  /-- The text ends where an item, or the rest of one, should stand. -/
  | endOfText
  /-- A newline stands where an item should. -/
  | newline
  /-- A backslash is followed by nothing escapable and by so many hexadecimal digits, which is
  none or more than eight. -/
  | digitCount (digits : Nat)
  deriving DecidableEq, Repr

/-- Whether a backslash takes the codepoint after it as it stands. -/
def isEscapable (c : Char) : Bool := c == '\\' || c == '\'' || c == '"' || c == '\x60'

/-- The item after a backslash that is followed by `text`. -/
def readEscape : List Char → Except Fault (Item × List Char)
  | [] => .error .endOfText
  | c :: rest =>
    if isEscapable c then .ok (escaped c, rest)
    else
      let digits := (c :: rest).takeWhile Text.isHexDigit
      if 1 ≤ digits.length ∧ digits.length ≤ 8 then
        .ok (numbered digits, (c :: rest).dropWhile Text.isHexDigit)
      else .error (.digitCount digits.length)

/-- The item that a text begins with, and the text after it. -/
def read : List Char → Except Fault (Item × List Char)
  | [] => .error .endOfText
  | c :: rest =>
    if c = '\n' then .error .newline
    else if c = '\\' then readEscape rest
    else .ok (verbatim c, rest)

/-- An escape that was read is written by the backslash and the text up to the rest. -/
theorem text_append_of_readEscape {s rest : List Char} {item : Item}
    (h : readEscape s = .ok (item, rest)) : item.text ++ rest = '\\' :: s := by
  cases s with
  | nil => simp [readEscape] at h
  | cons c t =>
    simp only [readEscape] at h
    split at h
    · simp only [Except.ok.injEq, Prod.mk.injEq] at h
      obtain ⟨rfl, rfl⟩ := h
      rfl
    · split at h
      · simp only [Except.ok.injEq, Prod.mk.injEq] at h
        obtain ⟨rfl, rfl⟩ := h
        simp only [text, List.cons_append, List.takeWhile_append_dropWhile]
      · simp at h

/-- An item that was read is written by the text up to the rest. -/
theorem text_append_of_read {s rest : List Char} {item : Item}
    (h : read s = .ok (item, rest)) : item.text ++ rest = s := by
  cases s with
  | nil => simp [read] at h
  | cons c t =>
    simp only [read] at h
    split at h
    · simp at h
    · split at h
      · next hc => rw [text_append_of_readEscape h, hc]
      · simp only [Except.ok.injEq, Prod.mk.injEq] at h
        obtain ⟨rfl, rfl⟩ := h
        rfl

/-- Every item is written by at least one codepoint. -/
theorem text_length_pos (item : Item) : 0 < item.text.length := by
  cases item <;> simp [text]

/-- What follows an item is shorter than the text it was read from. -/
theorem length_lt_of_read {s rest : List Char} {item : Item}
    (h : read s = .ok (item, rest)) : rest.length < s.length := by
  have hlen := congrArg List.length (text_append_of_read h)
  have hpos := item.text_length_pos
  simp only [List.length_append] at hlen
  omega

end Item

end Lexis
