import Lexis.Literal.Basic
import Lexis.Proofs.Literal.Unescape

/-!
# Decoding any text

Scanning hands only well-formed literals to the decoder, but the decoder takes any text. It looks at
the delimiters first and then reads what stands between them from left to right, up to the first
escape that denotes nothing. So a text has one fault that counts, whatever else is wrong with it
further on.

- `Literal.Decodes`: the text up to a place denotes codepoints.
- `Literal.FaultAt`, `Literal.FirstFault`: an escape that denotes nothing, and the leftmost one.
- `Literal.unescape_eq_ok_iff`, `Literal.unescape_eq_error_iff`: reading stops just there.
- `Literal.Enclosed`, `Literal.between`: a text with both delimiters, and the part between them.
- `first_fault_decides`: what each kind of quoted literal makes of a text.
-/

namespace Lexis

namespace Literal

open Item (NoCodepoint)

variable {form : Quoted} {fault : EscapeFault} {delimiter c : Char}
  {s rest digits chars text : List Char}

/-! ## Escapes and their faults -/

/-- The text before `rest` denotes these codepoints. A backslash takes one of four codepoints as it
stands, or a run of up to eight digits for the codepoint with that number. Any other codepoint
denotes itself. -/
inductive Decodes : List Char → List Char → List Char → Prop where
  | nil (rest : List Char) : Decodes rest [] rest
  | verbatim {c : Char} {s chars rest : List Char} (hc : c ≠ '\\') (h : Decodes s chars rest) :
    Decodes (c :: s) (c :: chars) rest
  | escaped {c : Char} {s chars rest : List Char} (hc : c = '\\' ∨ c = '\'' ∨ c = '"' ∨ c = '\x60')
    (h : Decodes s chars rest) : Decodes ('\\' :: c :: s) (c :: chars) rest
  | numbered {c : Char} {digits s chars rest : List Char} (hrun : IsRun digits s)
    (hlen : digits.length ≤ 8) (hc : c.toNat = Text.hexValue digits) (h : Decodes s chars rest) :
    Decodes ('\\' :: (digits ++ s)) (c :: chars) rest

/-- The backslash at the head of a text denotes nothing with what follows it, and why. -/
inductive FaultAt : List Char → EscapeFault → Prop where
  | ended : FaultAt ['\\'] .malformed
  | notEscapable {c : Char} {s : List Char} (hc : ¬(c = '\\' ∨ c = '\'' ∨ c = '"' ∨ c = '\x60'))
    (hhex : Text.isHexDigit c = false) : FaultAt ('\\' :: c :: s) .malformed
  | tooLong {digits s : List Char} (hrun : IsRun digits s) (hlen : 8 < digits.length) :
    FaultAt ('\\' :: (digits ++ s)) .malformed
  | noCodepoint {digits s : List Char} (hrun : IsRun digits s) (hlen : digits.length ≤ 8)
    (hno : NoCodepoint digits) : FaultAt ('\\' :: (digits ++ s)) (.invalidCodepoint digits)

/-- The leftmost fault of a text: everything before it denotes codepoints. -/
def FirstFault (s : List Char) (fault : EscapeFault) : Prop :=
  ∃ chars rest, Decodes s chars rest ∧ FaultAt rest fault

/-- A text that begins with a digit begins with a run of them. -/
theorem exists_isRun (hc : Text.isHexDigit c = true) (s : List Char) :
    ∃ digits rest, c :: s = digits ++ rest ∧ IsRun digits rest := by
  refine ⟨(c :: s).takeWhile Text.isHexDigit, (c :: s).dropWhile Text.isHexDigit,
    List.takeWhile_append_dropWhile.symm, ?_, fun d hd => Text.of_mem_takeWhile hd,
    fun d hd => Text.head_dropWhile hd⟩
  rw [List.takeWhile_cons_of_pos hc]
  exact List.cons_ne_nil _ _

/-- **Text that denotes codepoints is decoded to them**, and what follows it is decoded next. -/
theorem Decodes.unescape_eq (h : Decodes s chars rest) :
    unescape s = (unescape rest).map (chars ++ ·) := by
  induction h with
  | nil rest =>
    show unescape rest = (unescape rest).map id
    cases unescape rest <;> rfl
  | verbatim hc _ ih =>
    rw [unescape_of_ne hc, ih]
    cases unescape _ <;> rfl
  | @escaped c s chars rest hc _ ih =>
    have hread : readEscape (c :: s) = .ok (c, s) := if_pos hc
    rw [unescape_of_readEscape hread, ih]
    cases unescape _ <;> rfl
  | @numbered c digits s chars rest hrun hlen hc _ ih =>
    have hread : readEscape (digits ++ s) = .ok (c, s) := by
      rw [hrun.readEscape_eq, codepointOf, if_neg (Nat.not_lt_of_le hlen),
        Text.scalar?_eq_some_iff.2 hc]
      rfl
    rw [unescape_of_readEscape hread, ih]
    cases unescape _ <;> rfl

/-- Decoding stops at a fault with the fault. -/
theorem FaultAt.unescape_eq (h : FaultAt s fault) : unescape s = .error fault := by
  cases h with
  | ended => exact unescape_of_readEscape_error rfl
  | notEscapable hc hhex =>
    refine unescape_of_readEscape_error ?_
    rw [readEscape, if_neg hc, if_neg (by rw [hhex]; decide)]
  | tooLong hrun hlen =>
    refine unescape_of_readEscape_error ?_
    rw [hrun.readEscape_eq, codepointOf, if_pos hlen]
    rfl
  | noCodepoint hrun hlen hno =>
    refine unescape_of_readEscape_error ?_
    rw [hrun.readEscape_eq, codepointOf, if_neg (Nat.not_lt_of_le hlen),
      Text.scalar?_eq_none_iff.2 hno]
    rfl

/-- A backslash denotes a codepoint with the text up to some place behind it, or is at fault. -/
theorem exists_decodes_or_faultAt (s : List Char) :
    (∃ c rest, rest.length ≤ s.length ∧
      ∀ chars after, Decodes rest chars after → Decodes ('\\' :: s) (c :: chars) after) ∨
    ∃ fault, FaultAt ('\\' :: s) fault := by
  cases s with
  | nil => exact .inr ⟨_, .ended⟩
  | cons c s =>
    by_cases hc : c = '\\' ∨ c = '\'' ∨ c = '"' ∨ c = '\x60'
    · exact .inl ⟨c, s, Nat.le_succ _, fun _ _ h => .escaped hc h⟩
    by_cases hhex : Text.isHexDigit c = true
    · obtain ⟨digits, rest, hs, hrun⟩ := exists_isRun hhex s
      rw [hs]
      by_cases hlen : digits.length ≤ 8
      · cases hvalue : Text.scalar? (Text.hexValue digits) with
        | none => exact .inr ⟨_, .noCodepoint hrun hlen (Text.scalar?_eq_none_iff.1 hvalue)⟩
        | some value =>
          have hvalue := Text.scalar?_eq_some_iff.1 hvalue
          refine .inl ⟨value, rest, ?_, fun _ _ h => .numbered hrun hlen hvalue h⟩
          rw [List.length_append]
          exact Nat.le_add_left _ _
      · exact .inr ⟨_, .tooLong hrun (Nat.lt_of_not_le hlen)⟩
    · exact .inr ⟨_, .notEscapable hc (Bool.eq_false_iff.2 hhex)⟩

/-- Every text denotes codepoints throughout, or has a first fault. -/
theorem decodes_or_firstFault (s : List Char) :
    (∃ chars, Decodes s chars []) ∨ ∃ fault, FirstFault s fault := by
  -- a step takes one codepoint or a whole escape, so the induction is on the length
  induction hn : s.length using Nat.strong_induction_on generalizing s with
  | _ n ih =>
    -- what follows a codepoint or an escape settles the whole
    have hgo : ∀ c rest, rest.length < n →
        (∀ chars after, Decodes rest chars after → Decodes s (c :: chars) after) →
        (∃ chars, Decodes s chars []) ∨ ∃ fault, FirstFault s fault := by
      intro c rest hlt hstep
      rcases ih rest.length hlt rest rfl with ⟨chars, h⟩ | ⟨fault, chars, after, h, hfault⟩
      · exact .inl ⟨c :: chars, hstep _ _ h⟩
      · exact .inr ⟨fault, c :: chars, after, hstep _ _ h, hfault⟩
    subst hn
    cases s with
    | nil => exact .inl ⟨[], .nil []⟩
    | cons c s =>
      by_cases hc : c = '\\'
      · subst hc
        rcases exists_decodes_or_faultAt s with ⟨c, rest, hle, hstep⟩ | ⟨fault, hfault⟩
        · exact hgo c rest (Nat.lt_succ_of_le hle) hstep
        · exact .inr ⟨fault, [], '\\' :: s, .nil _, hfault⟩
      · exact hgo c s (Nat.lt_succ_self _) fun _ _ h => .verbatim hc h

theorem Decodes.unescape_eq_ok (h : Decodes s chars []) : unescape s = .ok chars := by
  rw [h.unescape_eq, unescape]
  show Except.ok (chars ++ []) = _
  rw [List.append_nil]

theorem FirstFault.unescape_eq (h : FirstFault s fault) : unescape s = .error fault := by
  obtain ⟨chars, rest, hdec, hfault⟩ := h
  rw [hdec.unescape_eq, hfault.unescape_eq]
  rfl

/-- **A text has a value exactly if it denotes codepoints throughout.** -/
theorem unescape_eq_ok_iff : unescape s = .ok chars ↔ Decodes s chars [] := by
  refine ⟨fun h => ?_, Decodes.unescape_eq_ok⟩
  rcases decodes_or_firstFault s with ⟨other, hdec⟩ | ⟨fault, hfault⟩
  · rw [hdec.unescape_eq_ok] at h
    rwa [← Except.ok.inj h]
  · rw [hfault.unescape_eq] at h
    exact absurd h (by simp)

/-- **Otherwise its first fault is what decoding reports.** -/
theorem unescape_eq_error_iff : unescape s = .error fault ↔ FirstFault s fault := by
  refine ⟨fun h => ?_, FirstFault.unescape_eq⟩
  rcases decodes_or_firstFault s with ⟨chars, hdec⟩ | ⟨other, hfault⟩
  · rw [hdec.unescape_eq_ok] at h
    exact absurd h (by simp)
  · rw [hfault.unescape_eq] at h
    rwa [← Except.error.inj h]

/-! ## Delimiters -/

/-- The text has at least two codepoints, and the first and the last one are delimiters. -/
def Enclosed (delimiter : Char) (text : List Char) : Prop :=
  2 ≤ text.length ∧ text.head? = some delimiter ∧ text.getLast? = some delimiter

instance (delimiter : Char) (text : List Char) : Decidable (Enclosed delimiter text) :=
  inferInstanceAs (Decidable (_ ∧ _))

/-- The codepoints strictly between the first and the last. -/
def between (text : List Char) : List Char := text.tail.dropLast

theorem body?_of_enclosed (h : Enclosed delimiter text) :
    body? delimiter text = some (between text) := by
  obtain ⟨hlen, hhead, hlast⟩ := h
  match text with
  | c :: d :: rest =>
    rw [List.getLast?_cons_cons] at hlast
    exact if_pos ⟨Option.some.inj hhead, hlast⟩

theorem body?_of_not_enclosed (h : ¬Enclosed delimiter text) : body? delimiter text = none := by
  match text with
  | [] => rfl
  | c :: rest =>
    refine if_neg fun ⟨hc, hlast⟩ => h ⟨?_, congrArg some hc, ?_⟩
    · cases rest with
      | nil => exact absurd hlast (by simp)
      | cons d rest => simp
    · rw [List.getLast?_cons, hlast]
      rfl

/-- The delimiters are looked at first, and then the first fault between them. -/
theorem unescapeBody_eq_ok_iff :
    unescapeBody form text = .ok chars ↔
      Enclosed form.delimiter text ∧ Decodes (between text) chars [] := by
  by_cases hd : Enclosed form.delimiter text
  · rw [unescapeBody, body?_of_enclosed hd, ← unescape_eq_ok_iff]
    dsimp only
    rcases unescape (between text) with (_ | digits) | value <;> simp [hd]
  · rw [unescapeBody, body?_of_not_enclosed hd]
    simp [hd]

theorem unescapeBody_eq_invalidCodepoint_iff :
    unescapeBody form text = .error (.invalidCodepoint digits) ↔
      Enclosed form.delimiter text ∧ FirstFault (between text) (.invalidCodepoint digits) := by
  by_cases hd : Enclosed form.delimiter text
  · rw [unescapeBody, body?_of_enclosed hd, ← unescape_eq_error_iff]
    dsimp only
    rcases unescape (between text) with (_ | other) | value <;> simp [hd]
  · rw [unescapeBody, body?_of_not_enclosed hd]
    simp [hd]

theorem unescapeBody_eq_malformed_iff {kind : Kind} {whole : List Char} :
    unescapeBody form text = .error (.malformed kind whole) ↔
      kind = .quoted form ∧ whole = text ∧
        (¬Enclosed form.delimiter text ∨ FirstFault (between text) .malformed) := by
  by_cases hd : Enclosed form.delimiter text
  · rw [unescapeBody, body?_of_enclosed hd, ← unescape_eq_error_iff]
    dsimp only
    rcases unescape (between text) with (_ | other) | value <;> simp [hd, eq_comm]
  · rw [unescapeBody, body?_of_not_enclosed hd]
    simp [hd, eq_comm]

/-! ## The number of codepoints in a character literal -/

theorem character_eq_ok_iff : character text = .ok c ↔ unescapeBody .character text = .ok [c] := by
  rw [character]
  rcases unescapeBody .character text with error | (_ | ⟨d, _ | ⟨e, more⟩⟩) <;> simp

theorem character_eq_invalidCodepoint_iff :
    character text = .error (.invalidCodepoint digits) ↔
      unescapeBody .character text = .error (.invalidCodepoint digits) := by
  rw [character]
  rcases unescapeBody .character text with error | (_ | ⟨d, _ | ⟨e, more⟩⟩) <;> simp

/-- How many codepoints there are counts only where all of them are denoted. -/
theorem character_eq_malformed_iff {kind : Kind} {whole : List Char} :
    character text = .error (.malformed kind whole) ↔
      unescapeBody .character text = .error (.malformed kind whole) ∨
      kind = .quoted .character ∧ whole = text ∧
        ∃ chars, unescapeBody .character text = .ok chars ∧ chars.length ≠ 1 := by
  rw [character]
  rcases unescapeBody .character text with error | (_ | ⟨d, _ | ⟨e, more⟩⟩) <;>
    simp [eq_comm]

end Literal

open Literal

/-- **A text is judged by its first fault.** Nothing is asked of the text. A string literal has a
value exactly if its text is enclosed in quotes and denotes codepoints throughout in between, and
these are its value. It is an invalid codepoint, with the digits as written, exactly if the text is
enclosed and the first fault between the quotes is a number without a codepoint. It is malformed,
and the error holds the whole text, exactly if the text is not enclosed or the first fault is any
other one. The same goes for a character literal and primes, except that a text without faults is
malformed too unless it denotes one codepoint. A raw string literal is just what stands between its
backticks, or malformed without them. -/
theorem first_fault_decides (text : List Char) :
    (∀ chars, Literal.string text = .ok chars ↔
      Enclosed '"' text ∧ Decodes (between text) chars []) ∧
    (∀ digits, Literal.string text = .error (.invalidCodepoint digits) ↔
      Enclosed '"' text ∧ FirstFault (between text) (.invalidCodepoint digits)) ∧
    (∀ kind whole, Literal.string text = .error (.malformed kind whole) ↔
      kind = .quoted .string ∧ whole = text ∧
        (¬Enclosed '"' text ∨ FirstFault (between text) .malformed)) ∧
    (∀ c, Literal.character text = .ok c ↔
      Enclosed '\'' text ∧ Decodes (between text) [c] []) ∧
    (∀ digits, Literal.character text = .error (.invalidCodepoint digits) ↔
      Enclosed '\'' text ∧ FirstFault (between text) (.invalidCodepoint digits)) ∧
    (∀ kind whole, Literal.character text = .error (.malformed kind whole) ↔
      kind = .quoted .character ∧ whole = text ∧
        (¬Enclosed '\'' text ∨ FirstFault (between text) .malformed ∨
          ∃ chars, Decodes (between text) chars [] ∧ chars.length ≠ 1)) ∧
    (∀ chars, Literal.rawString text = .ok chars ↔
      Enclosed '\x60' text ∧ chars = between text) ∧
    (∀ error, Literal.rawString text = .error error ↔
      ¬Enclosed '\x60' text ∧ error = .malformed (.quoted .rawString) text) := by
  refine ⟨fun chars => unescapeBody_eq_ok_iff, fun digits => unescapeBody_eq_invalidCodepoint_iff,
    fun kind whole => unescapeBody_eq_malformed_iff,
    fun c => character_eq_ok_iff.trans unescapeBody_eq_ok_iff,
    fun digits => character_eq_invalidCodepoint_iff.trans unescapeBody_eq_invalidCodepoint_iff,
    fun kind whole => ?_, ?_⟩
  · -- a character literal may be malformed for the number of its codepoints too
    rw [character_eq_malformed_iff, unescapeBody_eq_malformed_iff]
    simp only [unescapeBody_eq_ok_iff]
    show _ ∧ _ ∧ (¬Enclosed '\'' text ∨ _) ∨ _ ∧ _ ∧ (∃ chars, (Enclosed '\'' text ∧ _) ∧ _) ↔ _
    by_cases hd : Enclosed '\'' text
    · simp only [hd, not_true, false_or, true_and, ← and_or_left]
    · simp only [hd, not_false_eq_true, true_or, and_true, false_and, exists_false, and_false,
        or_false]
  · -- between backticks nothing is decoded
    by_cases hd : Enclosed '\x60' text
    · have hraw : Literal.rawString text = .ok (between text) := by
        rw [rawString, show body? Quoted.rawString.delimiter text = _ from body?_of_enclosed hd]
      simp [hraw, hd, eq_comm]
    · have hraw : Literal.rawString text = .error (.malformed (.quoted .rawString) text) := by
        rw [rawString, show body? Quoted.rawString.delimiter text = _ from body?_of_not_enclosed hd]
      simp [hraw, hd, eq_comm]

-- a number without a codepoint counts before the backslash that ends the body, which is no escape
example : Literal.string ['"', '\\', 'd', '8', '0', '0', '\\', '"'] =
    .error (.invalidCodepoint ['d', '8', '0', '0']) := by decide +kernel

end Lexis
