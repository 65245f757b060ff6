import Lexis.Proofs.Token.Ends

/-!
# How far reading looks ahead

What a token ends with is decided by two codepoints behind it at most, and what a gap ends with by
none, but where it is cut off by the end of the text. So a piece that ends two codepoints or more
before the end of a text is the piece that is read there, also when the text goes on.

- `Piece.IsPassed`: gaps and tokens, which a scan passes over.
- `Piece.read?_append_iff`: a gap or a token that ends early is read whether the text goes on or
  not.
- `Piece.exists_fault_of_append`: a text that goes on has no fault that lies early and is not in the
  text before it went on.
-/

namespace Lexis.Piece

/-- A scan passes over gaps and tokens, and stops at faults. -/
def IsPassed : Piece → Prop
  | gap _ => True
  | token _ _ => True
  | fault _ _ _ => False

variable {s text rest more : List Char} {kind : Kind} {form : Quoted} {cause : ScanError.Cause}
  {n place taken : Nat} {piece : Piece}

/-! ## Gaps and tokens -/

/-- A gap that something follows is read whether or not the text goes on. -/
theorem read?_append_gap_iff (hlen : text.length < s.length) :
    read? (s ++ more) = some (gap text) ↔ read? s = some (gap text) := by
  rw [read?_eq_gap_iff, read?_eq_gap_iff]
  constructor
  · rintro ⟨after, hafter, hskipped⟩
    obtain ⟨rest, rfl⟩ : text <+: s :=
      List.prefix_of_prefix_length_le ⟨after, hafter.symm⟩ (List.prefix_append s more)
        (Nat.le_of_lt hlen)
    rw [List.append_assoc, List.append_cancel_left_eq] at hafter
    exact ⟨rest, rfl, hskipped.of_isPrefix ⟨more, hafter⟩⟩
  · rintro ⟨rest, rfl, hskipped⟩
    have hrest : rest ≠ [] := by
      rintro rfl
      simp at hlen
    exact ⟨rest ++ more, List.append_assoc text rest more, hskipped.of_ne_nil hrest _⟩

/-- Two codepoints behind a token tell whether it ends. -/
theorem read?_append_append_iff (hrest : 2 ≤ rest.length) :
    read? (text ++ (rest ++ more)) = some (token kind text) ↔
      read? (text ++ rest) = some (token kind text) := by
  have hmore : SameAhead rest (rest ++ more) :=
    ⟨rest, [], more, (List.append_nil rest).symm, rfl, .inr hrest⟩
  have hless : SameAhead (rest ++ more) rest :=
    ⟨rest, more, [], rfl, (List.append_nil rest).symm, .inr hrest⟩
  rw [read?_append_eq_token_iff, read?_append_eq_token_iff]
  exact and_congr_right fun _ => ⟨fun h => h.of_sameAhead hless, fun h => h.of_sameAhead hmore⟩

/-- A token that two codepoints follow is read whether or not the text goes on. -/
theorem read?_append_token_iff (hlen : text.length + 2 ≤ s.length) :
    read? (s ++ more) = some (token kind text) ↔ read? s = some (token kind text) := by
  -- both sides say that the text begins with the token, and the rest of it is long enough
  have hsplit : text <+: s →
      (read? (s ++ more) = some (token kind text) ↔ read? s = some (token kind text)) := by
    rintro ⟨rest, rfl⟩
    rw [List.length_append] at hlen
    rw [List.append_assoc]
    exact read?_append_append_iff (by omega)
  constructor
  · intro h
    have hpre : text <+: s :=
      List.prefix_of_prefix_length_le (means_of_read? h).2.isPrefix (List.prefix_append s more)
        (by omega)
    exact (hsplit hpre).1 h
  · intro h
    exact (hsplit (means_of_read? h).2.isPrefix).2 h

/-- **A gap or a token that ends early is read whether or not the text goes on.** -/
theorem read?_append_iff (hpassed : piece.IsPassed) (hlen : piece.length + 2 ≤ s.length) :
    read? (s ++ more) = some piece ↔ read? s = some piece := by
  cases piece with
  | gap text =>
    have hlen : text.length + 2 ≤ s.length := hlen
    exact read?_append_gap_iff (by omega)
  | token kind text => exact read?_append_token_iff hlen
  | fault cause place taken => exact hpassed.elim

/-- A scan that passes over a piece moves on by the piece's length. -/
theorem length_le_of_read? (hpassed : piece.IsPassed) (h : read? s = some piece) :
    piece.length ≤ s.length := by
  cases piece with
  | gap text =>
    obtain ⟨rest, rfl, -⟩ := read?_eq_gap_iff.1 h
    show text.length ≤ (text ++ rest).length
    rw [List.length_append]
    omega
  | token kind text => exact (means_of_read? h).2.isPrefix.length_le
  | fault cause place taken => exact hpassed.elim

/-! ## Faults -/

/-- A literal where an item has to begin is opened by its delimiter. -/
theorem NextItem.exists_cons (h : NextItem s n rest form) : ∃ t, s = form.delimiter :: t := by
  cases form with
  | character =>
    obtain ⟨rfl, -⟩ := h
    exact ⟨rest, rfl⟩
  | string =>
    obtain ⟨items, rfl, -⟩ := h
    exact ⟨_, rfl⟩
  | rawString => exact h.elim

/-- A literal without a closing delimiter is opened by one. -/
theorem Unclosed.exists_cons (h : Unclosed s form) : ∃ t, s = form.delimiter :: t := by
  rcases h with ⟨n, rest, hnext, -⟩ | ⟨rfl, item, rest, rfl, -⟩ | ⟨rfl, rest, rfl, -⟩
  · exact hnext.exists_cons
  · exact ⟨_, rfl⟩
  · exact ⟨rest, rfl⟩

/-- What a delimiter opens is a literal of its form, or a fault. -/
theorem quoted_or_fault (h : read? (form.delimiter :: rest) = some piece) :
    (∃ text, piece = token (.quoted form) text) ∨
      ∃ cause place taken, piece = fault cause place taken := by
  cases piece with
  | gap text =>
    -- gaps begin with a space or a number sign
    obtain ⟨after, htext, hskipped⟩ := read?_eq_gap_iff.1 h
    cases form <;> cases hskipped <;> exact absurd (List.cons.inj htext).1 (by decide)
  | token kind text =>
    obtain ⟨hkind, hlongest⟩ := means_of_read? h
    obtain ⟨c, tail, rfl, hc⟩ := hkind.ofFirst_eq
    obtain rfl : c = form.delimiter := (List.cons_prefix_cons.1 hlongest.isPrefix).1
    have hfamily : kind.family = .quoted form := by
      rw [← hc]
      cases form <;> rfl
    cases kind with
    | quoted other =>
      obtain rfl : other = form := Kind.Family.quoted.inj hfamily
      exact .inl ⟨_, rfl⟩
    | _ => exact absurd hfamily (by simp [Kind.family])
  | fault cause place taken => exact .inr ⟨cause, place, taken, rfl⟩

/-- A delimiter that opens a fault in a text that goes on opens one before: a literal that is closed
stays closed. -/
theorem exists_fault_of_delimiter
    (h : read? (form.delimiter :: rest ++ more) = some (fault cause place taken)) :
    ∃ cause place taken, read? (form.delimiter :: rest) = some (fault cause place taken) := by
  cases hread : read? (form.delimiter :: rest) with
  | none => exact absurd (read?_eq_none_iff.1 hread) (by simp)
  | some piece =>
    rcases quoted_or_fault hread with ⟨text, rfl⟩ | ⟨cause, place, taken, rfl⟩
    · obtain ⟨hkind, hlongest⟩ := means_of_read? hread
      have hpre : text <+: form.delimiter :: rest ++ more :=
        hlongest.isPrefix.trans (List.prefix_append _ more)
      rw [Kind.read?_of_quoted hkind hpre] at h
      exact absurd h (by simp)
    · exact ⟨cause, place, taken, rfl⟩

/-- **A text that goes on has no new fault that lies early**: where a fault lies two codepoints or
more before the end of the text, the text had a fault already. -/
theorem exists_fault_of_append (h : read? (s ++ more) = some (fault cause place taken))
    (hlen : place + 2 ≤ s.length) :
    ∃ cause place taken, read? s = some (fault cause place taken) := by
  have hmalformed : Malformed (s ++ more) place cause := means_of_read? h
  -- a quoted literal that is at fault was not closed in the shorter text either
  have hquoted : ∀ (form : Quoted) (t : List Char), s ++ more = form.delimiter :: t →
      ∃ cause place taken, read? s = some (fault cause place taken) := by
    intro form t ht
    cases s with
    | nil => exact absurd hlen (by simp)
    | cons c s =>
      obtain rfl : c = form.delimiter := (List.cons.inj ht).1
      exact exists_fault_of_delimiter h
  -- what lies before the end of the shorter text is all there
  have hprefix : ∀ {head after : List Char}, s ++ more = head ++ after →
      head.length ≤ s.length → head <+: s := fun hs hle =>
    List.prefix_of_prefix_length_le ⟨_, hs.symm⟩ (List.prefix_append s more) hle
  cases cause with
  | emptyCharacterLiteral =>
    obtain ⟨-, rest, hs⟩ := hmalformed
    exact hquoted .character _ hs
  | unterminatedLiteral form =>
    obtain ⟨t, hs⟩ := hmalformed.2.exists_cons
    exact hquoted form t hs
  | bareNewlineInLiteral form =>
    obtain ⟨rest, hnext, -⟩ := hmalformed
    obtain ⟨t, hs⟩ := hnext.exists_cons
    exact hquoted form t hs
  | invalidEscapeDigitCount digits =>
    obtain ⟨form, rest, hnext, -⟩ := hmalformed
    obtain ⟨t, hs⟩ := hnext.exists_cons
    exact hquoted form t hs
  | missingExponentDigit =>
    obtain ⟨mantissa, marker, rest, hs, hm, hmarker, hrest, rfl⟩ := hmalformed
    -- the text has the marker, and the codepoint after it that is no digit
    rw [List.append_cons] at hs
    have hle : (mantissa ++ [marker]).length ≤ s.length := by
      rw [List.length_append, List.length_singleton]
      omega
    obtain ⟨_ | ⟨d, rest'⟩, rfl⟩ := hprefix hs hle
    · rw [List.append_nil, List.length_append, List.length_singleton] at hlen
      omega
    rw [List.append_assoc, List.append_cancel_left_eq] at hs
    have hhead : ∀ e, (d :: rest').head? = some e → e.isDigit = false := by
      intro e he
      exact hrest e (by rw [← hs]; exact he)
    rw [← List.append_cons] at hm ⊢
    have hlongest : Text.IsLongest IsMantissa mantissa (mantissa ++ marker :: d :: rest') := by
      refine ⟨hm.mem, List.prefix_append _ _, fun other hother hpre => ?_⟩
      exact hm.length_le other hother (hpre.trans (List.prefix_append _ more))
    exact ⟨_, _, exists_fault_of_marker hlongest hmarker hhead⟩
  | unterminatedBlockComment =>
    -- a comment that is not closed later on is not closed before
    obtain ⟨rfl, body, hs, hbody⟩ := hmalformed
    obtain ⟨body', rfl⟩ : ['#', '\x7b'] <+: s := hprefix hs hlen
    obtain rfl : body' ++ more = body := by simpa using hs
    have hunclosed : Malformed ('#' :: '\x7b' :: body') 0 .unterminatedBlockComment := by
      refine ⟨rfl, body', rfl, fun hclosed => hbody ?_⟩
      exact hclosed.trans (List.prefix_append body' more).isInfix
    exact ⟨_, _, exists_fault_of_malformed hunclosed⟩

end Lexis.Piece
