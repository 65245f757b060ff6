import Lexis.Rules
import Lexis.Proofs.Scan.Calls
import Lexis.Proofs.Scan.Lexemes
import Lexis.Proofs.Token.Keyword

/-!
# The rules read the piece ahead

Moving a cursor rule by rule comes to what the piece ahead of the cursor says: to its kind behind
its text, or to its error where the rule had come.

- `Cursor.Reads`, `Cursor.ReadsGap`: what a rule comes to where a piece is ahead.
- `Cursor.readsGap_skipGap`, `Cursor.reads_scanToken`: each rule comes to what the piece says.
- `rules_read_pieces`: so every call of a scanner finds what the rules come to.
-/

namespace Lexis

namespace Piece

/-- The string literal that begins with some text, up to the closing quote behind its items or to
the fault there. -/
def ofItems (before : List Char) (found : List Item × Option (Item.Fault × List Char)) : Piece :=
  match found.2 with
  | none => token (.quoted .string) (before ++ (Item.textOf found.1 ++ ['"']))
  | some (why, after) => itemFault .string (before.length + (Item.textOf found.1).length) after why

theorem string_eq_ofItems (rest : List Char) : string rest = ofItems ['"'] (stringItems rest) := by
  rw [string, ofItems, List.length_singleton]
  rfl

theorem ofItems_cons (before : List Char) (item : Item) (items : List Item)
    (stop : Option (Item.Fault × List Char)) :
    ofItems before (item :: items, stop) = ofItems (before ++ item.text) (items, stop) := by
  rw [ofItems, ofItems, Item.textOf_cons, List.length_append, List.length_append, Nat.add_assoc,
    List.append_assoc, List.append_assoc]

end Piece

namespace Cursor

variable {source : SourceText} {cursor start : Cursor} {c : Char} {rest : List Char}
  {form : Quoted}

/-! ## One codepoint -/

theorem current_of_cons (h : cursor.rest = c :: rest) : cursor.current = c := by
  rw [current, h, List.headD_cons]

theorem atEnd_of_nil (h : cursor.rest = []) : cursor.atEnd = true := by
  rw [atEnd, h, List.isEmpty_nil]

theorem atEnd_of_cons (h : cursor.rest = c :: rest) : cursor.atEnd = false := by
  rw [atEnd, h, List.isEmpty_cons]

theorem rest_advance_of_cons (h : cursor.rest = c :: rest) : cursor.advance.rest = rest := by
  rw [advance, rest_skip, h, List.drop_succ_cons, List.drop_zero]

theorem eatIf_of_head {p : Char → Bool} (hhead : cursor.rest.head? = some c) (hc : p c = true) :
    cursor.eatIf p = (true, cursor.advance) := by
  rw [eatIf, hhead, Option.any_some, if_pos hc]

theorem eatIf_of_not_head {p : Char → Bool} (h : ∀ c, cursor.rest.head? = some c → p c = false) :
    cursor.eatIf p = (false, cursor) := by
  cases hhead : cursor.rest.head? with
  | none =>
    rw [eatIf, hhead]
    rfl
  | some c =>
    rw [eatIf, hhead, Option.any_some, h c hhead]
    rfl

theorem eat_of_head (hhead : cursor.rest.head? = some c) :
    cursor.eat c = (true, cursor.advance) :=
  eatIf_of_head hhead (beq_self_eq_true c)

theorem eat_of_not_head (hhead : cursor.rest.head? ≠ some c) : cursor.eat c = (false, cursor) :=
  eatIf_of_not_head fun _ hd => beq_eq_false_iff_ne.2 fun heq => hhead (heq ▸ hd)

theorem advance_skip (cursor : Cursor) (n : Nat) : cursor.advance.skip n = cursor.skip (n + 1) :=
  (cursor.skip_succ n).symm

/-! ## What rules come to -/

/-- What a rule for tokens comes to where a piece is ahead: its kind, with the cursor behind the
token, or the error at the fault's place, with the cursor where the rule had come. -/
inductive Reads (start : Cursor) : Except ScanError Kind × Cursor → Piece → Prop
  | token {kind : Kind} {text : List Char} {after : Cursor}
    (hafter : after = start.skip text.length) : Reads start (.ok kind, after) (.token kind text)
  | fault {cause : ScanError.Cause} {place taken : Nat} {location : Location} {stop : Cursor}
    (hlocation : location = (start.skip place).location) (hstop : stop = start.skip taken) :
    Reads start (.error ⟨cause, location⟩, stop) (.fault cause place taken)

/-- What a rule for gaps comes to: whether a gap was passed, or the error of one that has no end. -/
inductive ReadsGap (start : Cursor) : Except ScanError Bool × Cursor → Prop
  | gap {text : List Char} {after : Cursor} (h : Piece.read? start.rest = some (.gap text))
    (hafter : after = start.skip text.length) : ReadsGap start (.ok true, after)
  | fault {cause : ScanError.Cause} {place taken : Nat} {location : Location} {stop : Cursor}
    (h : start.piece? = some (.fault cause place taken))
    (hlocation : location = (start.skip place).location) (hstop : stop = start.skip taken) :
    ReadsGap start (.error ⟨cause, location⟩, stop)
  | none (h : ∀ c, start.rest.head? = some c → c ≠ ' ' ∧ c ≠ '#') :
    ReadsGap start (.ok false, start)

/-! ## Gaps -/

theorem readsGap_skipComment (hrest : start.rest = '#' :: rest) :
    start.ReadsGap start.skipComment := by
  have hpiece : Piece.read? start.rest = some (Piece.comment rest) := by
    rw [hrest]
    rfl
  have hnot : ¬start.AtCut := fun hcut => absurd (hrest.symm.trans hcut.1) (by simp)
  have hsign : start.advance.rest = rest := rest_advance_of_cons hrest
  rw [skipComment, eat_of_head (congrArg List.head? hrest)]
  dsimp only
  by_cases hbrace : rest.head? = some '\x7b'
  · -- a block comment, with or without its closing mark
    obtain ⟨body, rfl⟩ := List.head?_eq_some_iff.1 hbrace
    have hbody : start.advance.advance.rest = body := rest_advance_of_cons hsign
    rw [eat_of_head (congrArg List.head? hsign)]
    dsimp only [eatThrough]
    rw [Piece.comment] at hpiece
    rw [hbody]
    cases hfirst : Text.throughFirst? ['\x7d', '#'] body with
    | some text =>
      rw [hfirst] at hpiece
      exact .gap hpiece ((start.advance.advance_skip _).trans (start.advance_skip _))
    | none =>
      rw [hfirst] at hpiece
      rw [← piece?_of_not_atCut hnot] at hpiece
      refine .fault hpiece rfl ?_
      rw [advance_skip, advance_skip, Nat.add_comm 1, List.length_cons]
  · -- a line comment, which always has an end
    rw [Piece.comment_of_head?_ne hbrace] at hpiece
    rw [eat_of_not_head (hsign ▸ hbrace)]
    dsimp only [eatLine]
    rw [hsign]
    exact .gap hpiece (start.advance_skip _)

/-- **The rules for gaps** pass over the gap that is ahead, or find its fault. -/
theorem readsGap_skipGap (start : Cursor) : start.ReadsGap start.skipGap := by
  rw [skipGap]
  by_cases hspace : start.rest.head? = some ' '
  · obtain ⟨rest, hrest⟩ := List.head?_eq_some_iff.1 hspace
    have hread : Piece.read? start.rest = some (.gap [' ']) := by
      rw [hrest]
      rfl
    rw [eat_of_head hspace]
    exact .gap hread rfl
  · rw [eat_of_not_head hspace]
    dsimp only
    by_cases hsign : start.rest.head? = some '#'
    · obtain ⟨rest, hrest⟩ := List.head?_eq_some_iff.1 hsign
      exact readsGap_skipComment hrest
    · rw [skipComment, eat_of_not_head hsign]
      refine .none fun c hc => ⟨?_, ?_⟩
      · rintro rfl
        exact hspace hc
      · rintro rfl
        exact hsign hc

/-! ## Items -/

/-- What the rule for items comes to, so many codepoints behind the start of a literal: the cursor
behind the item, or the fault that the literal has for want of one. -/
inductive ReadsItem (form : Quoted) (start : Cursor) (before : Nat) :
    Except ScanError Unit × Cursor → Except Item.Fault (Item × List Char) → Prop
  | item {item : Item} {next : Cursor} (hnext : next = start.skip (before + item.text.length)) :
    ReadsItem form start before (.ok (), next) (.ok (item, next.rest))
  | fault {why : Item.Fault} {error : ScanError} {stop : Cursor}
    (h : start.Reads (.error error, stop)
      (Piece.itemFault form before (start.skip before).rest why)) :
    ReadsItem form start before (.error error, stop) (.error why)

/-- The literal is at fault for what is ahead of the cursor. -/
theorem ReadsItem.of_fault {before : Nat} {s : List Char} {why : Item.Fault} {error : ScanError}
    {stop : Cursor} (hcursor : start.skip before = cursor) (hrest : cursor.rest = s)
    (h : start.Reads (.error error, stop) (Piece.itemFault form before s why)) :
    start.ReadsItem form before (.error error, stop) (.error why) := by
  subst hcursor
  subst hrest
  exact .fault h

/-- A backslash takes a codepoint that may follow one, or a run of digits. -/
theorem readsItem_escape {before : Nat} (hcursor : start.skip before = cursor)
    (hrest : cursor.rest = '\\' :: rest) :
    start.ReadsItem form before (cursor.escapedCharacter form start.location)
      (Item.readEscape rest) := by
  have hescape : cursor.advance.rest = rest := rest_advance_of_cons hrest
  have hskip (n : Nat) : cursor.skip n = start.skip (before + n) := by
    rw [← hcursor, start.skip_skip]
  rw [escapedCharacter, atEnd_of_cons hrest, current_of_cons hrest, if_neg (by decide),
    if_neg (by decide), if_pos rfl]
  dsimp only
  cases rest with
  | nil =>
    -- the text ends behind the backslash
    rw [if_pos (atEnd_of_nil hescape), Item.readEscape]
    exact .of_fault hcursor hrest (.fault rfl (hskip 1))
  | cons d rest =>
    rw [atEnd_of_cons hescape, if_neg (by decide), Item.readEscape]
    by_cases hd : Item.isEscapable d = true
    · -- a delimiter or a backslash
      have hafter : cursor.advance.advance.rest = rest := rest_advance_of_cons hescape
      rw [if_pos hd, eatIf_of_head (congrArg List.head? hescape) hd, ← hafter]
      exact .item ((cursor.advance_skip 1).trans (hskip 2))
    · -- the run of digits ahead is moved over, however long it is
      have hnot : ∀ e, cursor.advance.rest.head? = some e → Item.isEscapable e = false := by
        intro e he
        rw [hescape] at he
        obtain rfl := Option.some.inj he
        exact Bool.eq_false_iff.2 hd
      have hsplit : (d :: rest).takeWhile Text.isHexDigit ++ (d :: rest).dropWhile Text.isHexDigit
          = d :: rest := List.takeWhile_append_dropWhile
      have heat : cursor.advance.eatWhile Text.isHexDigit =
          (((d :: rest).takeWhile Text.isHexDigit).length,
            cursor.advance.skip ((d :: rest).takeWhile Text.isHexDigit).length) := by
        rw [eatWhile, hescape]
      rw [if_neg hd, eatIf_of_not_head hnot]
      dsimp only
      rw [heat]
      dsimp only
      generalize (d :: rest).takeWhile Text.isHexDigit = run at hsplit ⊢
      have htake : cursor.advance.skip run.length = start.skip (before + (run.length + 1)) :=
        (cursor.advance_skip _).trans (hskip _)
      by_cases hlength : 1 ≤ run.length ∧ run.length ≤ 8
      · -- the number of a codepoint
        have hafter : (cursor.advance.skip run.length).rest =
            (d :: rest).dropWhile Text.isHexDigit :=
          rest_skip_of_eq (hescape.trans hsplit.symm)
        rw [if_pos hlength, if_pos hlength, ← hafter]
        exact .item htake
      · rw [if_neg hlength, if_neg hlength]
        refine .of_fault hcursor hrest (.fault (congrArg location hcursor.symm) ?_)
        rw [htake, Nat.add_assoc, Nat.add_comm 1]

/-- **The rule for items** takes in the item that is ahead, or finds why there is none. -/
theorem readsItem_escapedCharacter (form : Quoted) (start : Cursor) (before : Nat) :
    start.ReadsItem form before ((start.skip before).escapedCharacter form start.location)
      (Item.read (start.skip before).rest) := by
  generalize hcursor : start.skip before = cursor
  cases hrest : cursor.rest with
  | nil =>
    rw [escapedCharacter, if_pos (atEnd_of_nil hrest), Item.read]
    exact .of_fault hcursor hrest (.fault rfl hcursor.symm)
  | cons c rest =>
    rw [Item.read]
    by_cases hnewline : c = '\n'
    · rw [escapedCharacter, atEnd_of_cons hrest, current_of_cons hrest, if_neg (by decide),
        if_pos hnewline, if_pos hnewline]
      exact .of_fault hcursor hrest (.fault (congrArg location hcursor.symm) hcursor.symm)
    · rw [if_neg hnewline]
      by_cases hback : c = '\\'
      · subst hback
        exact readsItem_escape hcursor hrest
      · have hafter : cursor.advance.rest = rest := rest_advance_of_cons hrest
        rw [escapedCharacter, atEnd_of_cons hrest, current_of_cons hrest, if_neg (by decide),
          if_neg hnewline, if_neg hback, if_neg hback, ← hafter]
        -- any other codepoint stands for itself
        refine .item ?_
        rw [← hcursor]
        exact start.skip_skip before 1

/-! ## Quoted literals -/

theorem reads_characterLiteral (hrest : start.rest = '\'' :: rest) :
    start.Reads start.characterLiteral (Piece.character rest start.source.behind) := by
  have hinside : start.advance.rest = rest := rest_advance_of_cons hrest
  have hcurrent : start.advance.current = rest.headD start.source.behind := by
    rw [current, hinside]
    rfl
  have hitem : start.ReadsItem .character 1
      (start.advance.escapedCharacter .character start.location) (Item.read start.advance.rest) :=
    readsItem_escapedCharacter .character start 1
  rw [hinside] at hitem
  rw [characterLiteral, Piece.character, hcurrent]
  by_cases hprime : rest.headD start.source.behind = '\''
  · -- this may be a codepoint behind the text, which both sides read
    rw [if_pos hprime, if_pos hprime]
    exact .fault rfl rfl
  · rw [if_neg hprime, if_neg hprime]
    generalize start.advance.escapedCharacter .character start.location = result at hitem ⊢
    generalize Item.read rest = found at hitem ⊢
    cases hitem with
    | @item item next hnext =>
      dsimp only
      by_cases hclose : next.rest.head? = some '\''
      · rw [eat_of_head hclose, if_pos hclose]
        refine .token ?_
        rw [hnext, advance, skip_skip, List.length_cons, List.length_append, Nat.add_comm 1,
          List.length_singleton]
      · rw [eat_of_not_head hclose, if_neg hclose]
        exact .fault rfl hnext
    | fault h =>
      have h : start.Reads _ (Piece.itemFault .character 1 start.advance.rest _) := h
      rw [hinside] at h
      exact h

/-- The items of a string literal are taken one by one, by induction on what is ahead. -/
theorem reads_stringItems {cursor : Cursor} (before : List Char)
    (hcursor : start.skip before.length = cursor) :
    start.Reads (cursor.stringItems start.location)
      (Piece.ofItems before (Piece.stringItems cursor.rest)) := by
  rw [stringItems]
  by_cases hquote : cursor.rest.head? = some '"'
  · obtain ⟨rest, hrest⟩ := List.head?_eq_some_iff.1 hquote
    rw [eat_of_head hquote, hrest, Piece.stringItems_of_quote]
    refine .token ?_
    rw [← hcursor, advance, skip_skip, List.length_append]
    rfl
  · rw [eat_of_not_head hquote]
    have hitem : start.ReadsItem .string before.length
        ((start.skip before.length).escapedCharacter .string start.location)
        (Item.read (start.skip before.length).rest) :=
      readsItem_escapedCharacter .string start before.length
    rw [hcursor] at hitem
    dsimp only
    split
    -- no item is ahead, and the literal is at fault for the same reason
    next error stop hresult =>
      rw [hresult] at hitem
      generalize hfound : Item.read cursor.rest = found at hitem
      cases hitem with
      | fault h =>
        rw [hcursor] at h
        rw [Piece.stringItems_of_fault hquote (Item.read_eq_error_iff.1 hfound)]
        exact h
    -- an item is taken in, and what follows is shorter
    next after hresult =>
      rw [hresult] at hitem
      generalize hfound : Item.read cursor.rest = found at hitem
      cases hitem with
      | @item item _ hnext =>
        rw [Piece.stringItems_of_read hquote hfound, Piece.ofItems_cons]
        have hlater : after.rest.length < cursor.rest.length :=
          length_rest_lt_of_escapedCharacter hresult
        have hskip : start.skip (before ++ item.text).length = after := by
          rw [hnext, List.length_append]
        exact reads_stringItems (before ++ item.text) hskip
  termination_by cursor.rest.length

theorem reads_stringLiteral (hrest : start.rest = '"' :: rest) :
    start.Reads start.stringLiteral (Piece.string rest) := by
  have h : start.Reads start.stringLiteral
      (Piece.ofItems ['"'] (Piece.stringItems start.advance.rest)) := reads_stringItems ['"'] rfl
  rw [Piece.string_eq_ofItems, ← rest_advance_of_cons hrest]
  exact h

theorem reads_rawStringLiteral (hrest : start.rest = '\x60' :: rest) :
    start.Reads start.rawStringLiteral (Piece.rawString rest) := by
  have hinside : start.advance.rest = rest := rest_advance_of_cons hrest
  rw [rawStringLiteral, eatThrough, Piece.rawString, hinside]
  cases Text.throughFirst? ['\x60'] rest with
  | some text => exact .token (start.advance_skip text.length)
  | none =>
    refine .fault rfl ?_
    rw [advance_skip, Nat.add_comm 1]

/-! ## Decimals -/

theorem eatDigits_of_read? {run : List Char} (h : Digits.read? cursor.rest = some (run, rest)) :
    cursor.eatDigits = cursor.skip run.length ∧
      cursor.eatIf Char.isDigit = (true, cursor.advance) ∧
      cursor.advance.eatDigits = cursor.skip run.length := by
  cases hrest : cursor.rest with
  | nil =>
    rw [hrest, Digits.read?] at h
    cases h
  | cons c s =>
    rw [hrest, Digits.read?] at h
    split at h
    next hc =>
      obtain ⟨rfl, -⟩ := Prod.mk.inj (Option.some.inj h)
      have hall : (c :: s).takeWhile Digits.isRunChar = c :: s.takeWhile Digits.isRunChar :=
        List.takeWhile_cons_of_pos (Digits.isRunChar_of_isDigit hc)
      refine ⟨?_, eatIf_of_head (congrArg List.head? hrest) hc, ?_⟩
      · rw [eatDigits, eatWhile, hrest, hall]
      · rw [eatDigits, eatWhile, rest_advance_of_cons hrest]
        exact cursor.advance_skip _
    · cases h

theorem eatIf_of_read?_none (h : Digits.read? cursor.rest = none) :
    cursor.eatIf Char.isDigit = (false, cursor) :=
  eatIf_of_not_head (Digits.read?_eq_none_iff.1 h)

theorem eatFraction_eq (cursor : Cursor) :
    cursor.eatFraction = cursor.skip (Fraction.read cursor.rest).1.length := by
  rw [eatFraction]
  by_cases hpoint : cursor.rest.head? = some '.'
  · obtain ⟨rest, hrest⟩ := List.head?_eq_some_iff.1 hpoint
    have hafter : cursor.advance.rest = rest := rest_advance_of_cons hrest
    rw [eat_of_head hpoint, hrest, Fraction.read, ← hafter]
    dsimp only
    cases hread : Digits.read? cursor.advance.rest with
    | some found =>
      obtain ⟨-, hdigit, hrun⟩ := eatDigits_of_read? hread
      rw [hdigit]
      exact hrun.trans (cursor.advance_skip _)
    | none =>
      -- the point is not part of the decimal
      rw [eatIf_of_read?_none hread]
      rfl
  · have hnot : ∀ d t, cursor.rest = '.' :: d :: t → d.isDigit = false := by
      intro d t hrest
      exact absurd (congrArg List.head? hrest) hpoint
    rw [eat_of_not_head hpoint, Fraction.read_eq_nil hnot]
    rfl

theorem eatMantissa_eq (hhead : start.rest.head? = some c) (hc : c.isDigit = true) :
    start.eatDigits.eatFraction = start.skip (Mantissa.read start.rest).1.length := by
  rw [Mantissa.read]
  cases hread : Digits.read? start.rest with
  | none =>
    have hnot := Digits.read?_eq_none_iff.1 hread c hhead
    rw [hc] at hnot
    cases hnot
  | some found =>
    obtain ⟨run, rest⟩ := found
    have hafter : (start.skip run.length).rest = rest :=
      rest_skip_of_eq (Digits.append_of_read? hread).symm
    rw [(eatDigits_of_read? hread).1, eatFraction_eq, hafter, skip_skip, List.length_append]

theorem reads_decimalLiteral (hhead : start.rest.head? = some c) (hc : c.isDigit = true) :
    start.Reads start.decimalLiteral (Piece.decimal start.rest) := by
  have hrest : (start.skip (Mantissa.read start.rest).1.length).rest =
      (Mantissa.read start.rest).2 := rest_skip_of_eq (Mantissa.append_read start.rest).symm
  rw [decimalLiteral, eatMantissa_eq hhead hc, Piece.decimal]
  generalize Mantissa.read start.rest = found at hrest ⊢
  obtain ⟨mantissa, after⟩ := found
  dsimp only at hrest ⊢
  generalize hcursor : start.skip mantissa.length = cursor at hrest ⊢
  -- the codepoint behind the mantissa decides whether there is an exponent
  cases after with
  | nil =>
    rw [eatIf_of_not_head (by simp [hrest])]
    exact .token hcursor.symm
  | cons e rest =>
    have hnext : cursor.rest.head? = some e := congrArg List.head? hrest
    dsimp only
    by_cases he : e = 'e' ∨ e = 'E'
    · have hmarker : cursor.advance = start.skip (mantissa.length + 1) := by
        rw [← hcursor, advance, skip_skip]
      rw [if_pos he, eatIf_of_head hnext (by simpa using he)]
      dsimp only
      rw [← rest_advance_of_cons hrest]
      cases hread : Digits.read? cursor.advance.rest with
      | none =>
        rw [eatIf_of_read?_none hread]
        exact .fault (congrArg location hmarker) hmarker
      | some found =>
        obtain ⟨-, hdigit, hrun⟩ := eatDigits_of_read? hread
        rw [hdigit]
        refine .token ?_
        rw [hrun, hmarker, skip_skip, List.length_append, List.length_cons, Nat.add_assoc,
          Nat.add_comm 1]
    · rw [if_neg he, eatIf_of_not_head]
      · exact .token hcursor.symm
      · intro d hd
        obtain rfl := Option.some.inj (hnext.symm.trans hd)
        simpa using he

/-! ## Words and marks -/

/-- The text that a standing cursor moves over is what its source has there. -/
theorem StandsIn.slice_eq {text : List Char} (h : start.StandsIn source)
    (hrest : text <+: start.rest) :
    start.source.slice start.position (start.skip text.length).position = text := by
  have htake : start.rest.take text.length = text := (List.prefix_iff_eq_take.1 hrest).symm
  rw [position_skip, htake, SourceText.slice, h.source_eq, List.drop_take, Nat.add_sub_cancel_left,
    ← h.rest_eq, htake]

theorem StandsIn.sliceFrom?_eq {text : List Char} (h : start.StandsIn source)
    (hrest : text <+: start.rest) :
    (start.skip text.length).sliceFrom? start.position = some text := by
  rw [sliceFrom?, if_pos (start.position_le_skip _), source_skip, h.slice_eq hrest]

/-- A word that begins with a capital is no keyword, so it need not be looked up. -/
theorem ofLetters?_of_isUpper {letters : List Char} (hhead : letters.head? = some c)
    (hc : c.isUpper = true) : Keyword.ofLetters? letters = none := by
  refine Option.eq_none_iff_forall_ne_some.2 fun keyword hfound => ?_
  rw [Keyword.ofLetters?_eq_some_iff.1 hfound] at hhead
  have hlower := keyword.isLower_of_mem c (List.mem_of_mem_head? hhead)
  rw [Text.not_isLower_of_isUpper hc] at hlower
  cases hlower

theorem reads_word (h : start.StandsIn source) (hrest : start.rest = c :: rest)
    (hc : c.isAlpha = true) :
    start.Reads (.ok start.word.1, start.word.2) (Piece.word start.rest) := by
  have hslice : (start.skip (start.rest.takeWhile Char.isAlpha).length).sliceFrom?
      start.position = some (start.rest.takeWhile Char.isAlpha) :=
    h.sliceFrom?_eq (List.takeWhile_prefix _)
  have hafter : (start.skip (start.rest.takeWhile Char.isAlpha).length).rest =
      start.rest.dropWhile Char.isAlpha :=
    rest_skip_of_eq List.takeWhile_append_dropWhile.symm
  have hhead : (start.rest.takeWhile Char.isAlpha).head? = some c := by
    rw [hrest, List.takeWhile_cons_of_pos hc]
    rfl
  rw [word, current_of_cons hrest, eatWhile, Piece.word]
  generalize start.rest.takeWhile Char.isAlpha = letters at *
  dsimp only
  by_cases hupper : c.isUpper = true
  · -- a capital is not looked up
    rw [if_pos hupper, ofLetters?_of_isUpper hhead hupper]
    exact .token rfl
  · rw [if_neg hupper, hslice, Option.bind_some]
    -- the slice that is looked up is the run of letters
    cases Keyword.ofLetters? letters with
    | none => exact .token rfl
    | some keyword =>
      dsimp only
      by_cases hunderscore : (start.rest.dropWhile Char.isAlpha).head? = some '_'
      · rw [if_pos hunderscore, eat_of_head (hafter ▸ hunderscore)]
        refine .token ?_
        rw [List.length_append]
        exact start.skip_skip _ _
      · rw [if_neg hunderscore, eat_of_not_head (hafter ▸ hunderscore)]
        exact .token rfl

theorem eatFirst_eq (marks : List Mark) (cursor : Cursor) :
    cursor.eatFirst marks =
      match marks.find? fun mark => mark.text.isPrefixOf cursor.rest with
      | some mark => (some mark, cursor.skip mark.text.length)
      | none => (none, cursor) := by
  induction marks with
  | nil => rfl
  | cons mark marks ih =>
    rw [eatFirst, eatText, startsWith, List.find?_cons]
    cases mark.text.isPrefixOf cursor.rest with
    | true => rfl
    | false => exact ih

/-- The mark ahead is the first one of the table that fits. -/
theorem eatMark_eq (cursor : Cursor) :
    cursor.eatMark =
      match Mark.atHead? cursor.rest with
      | some mark => (some mark, cursor.skip mark.text.length)
      | none => (none, cursor) := by
  rw [eatMark]
  cases hrest : cursor.rest with
  | nil =>
    rw [atEnd_of_nil hrest]
    rfl
  | cons c rest =>
    rw [atEnd_of_cons hrest, current_of_cons hrest, Bool.false_or, Mark.atHead?, ← hrest]
    by_cases hc : Mark.isDelimiter c = true
    · rw [if_pos hc, if_pos hc]
    · rw [if_neg hc, if_neg hc, eatFirst_eq]

/-! ## The next lexeme -/

/-- **The rules for tokens** come to what the piece ahead says, where no gap is ahead. -/
theorem reads_scanToken (h : start.StandsIn source) (hrest : start.rest = c :: rest)
    (hspace : c ≠ ' ') (hsign : c ≠ '#') :
    ∃ piece, start.piece? = some piece ∧ start.Reads start.scanToken piece := by
  rw [piece?, hrest, Piece.read?, if_neg hspace, if_neg hsign, scanToken, eatMark_eq, hrest]
  refine ⟨_, rfl, ?_⟩
  cases Mark.atHead? (c :: rest) with
  | some mark => exact .token rfl
  | none =>
    dsimp only
    rw [current_of_cons hrest]
    -- what is no mark is told by its first codepoint
    split
    next hprime => exact reads_characterLiteral (hprime ▸ hrest)
    split
    next hquote => exact reads_stringLiteral (hquote ▸ hrest)
    split
    next hback => exact reads_rawStringLiteral (hback ▸ hrest)
    split
    next hdigit =>
      rw [← hrest]
      exact reads_decimalLiteral (congrArg List.head? hrest) hdigit
    split
    next halpha =>
      rw [← hrest]
      exact reads_word h hrest halpha
    · exact .token rfl

/-- A cursor that stands in a source is moved on to what the pieces ahead say, by induction on the
gaps before it. -/
theorem StandsIn.scanNext_eq {cursor : Cursor} (h : cursor.StandsIn source) :
    cursor.scanNext = cursor.nextEvent := by
  rw [scanNext]
  cases hrest : cursor.rest with
  | nil =>
    rw [atEnd_of_nil hrest, if_pos rfl]
    exact (nextEvent_of_finished (Piece.read?_eq_none_iff.2 hrest)).symm
  | cons c rest =>
    rw [atEnd_of_cons hrest, if_neg Bool.false_ne_true]
    have hgap := cursor.readsGap_skipGap
    split
    next error stop hresult =>
      rw [hresult] at hgap
      cases hgap with
      | fault hpiece hlocation hstop =>
        -- a comment that is not closed
        rw [nextEvent_of_fault hpiece, hlocation, hstop]
    next after hresult =>
      rw [hresult] at hgap
      cases hgap with
      | gap hread hafter =>
        have hlater : after.rest.length < cursor.rest.length :=
          length_rest_lt_of_skipGap hresult
        rw [nextEvent_of_gap hread, ← hafter]
        exact StandsIn.scanNext_eq (hafter ▸ h.skip _)
    next first hresult =>
      rw [hresult] at hgap
      cases hgap with
      | none hnot =>
        -- no gap is left, so the rules for tokens have their turn
        obtain ⟨hspace, hsign⟩ := hnot c (congrArg List.head? hrest)
        obtain ⟨piece, hpiece, hreads⟩ := reads_scanToken h hrest hspace hsign
        generalize cursor.scanToken = result at hreads ⊢
        cases hreads with
        | fault hlocation hstop => rw [nextEvent_of_fault hpiece, hlocation, hstop]
        | @token kind text after hafter =>
          have hread := piece?_eq_token_iff.1 hpiece
          have htext : cursor.source.contents ⟨cursor.location, after.location⟩ = text := by
            rw [hafter]
            exact h.slice_eq (Piece.means_of_read? hread).2.isPrefix
          rw [nextEvent_of_token hread, ← hafter]
          dsimp only
          rw [htext]
  termination_by cursor.rest.length

end Cursor

/-- **The rules read the pieces.** Whatever calls came before, moving rule by rule leads a scanner
to the lexeme or error that the pieces ahead say, and leaves it in the same place. -/
theorem rules_read_pieces (source : SourceText) (calls : List Scanner.Call) :
    let scanner := source.scanner.afterCalls calls
    scanner.nextLexeme =
      (scanner.cursor.scanNext.1, { scanner with cursor := scanner.cursor.scanNext.2 }) := by
  have hs : (source.scanner.afterCalls calls).cursor.StandsIn source :=
    Scanner.standsIn_afterCalls (Cursor.standsIn_cursor source) calls
  dsimp only
  rw [hs.scanNext_eq]
  rfl

end Lexis
