import Mathlib.Data.List.Forall2
import Lexis.Text.Escaped
import Lexis.Proofs.Text.Hex
import Lexis.Proofs.Text.Lines

/-!
# Text with escapes can be read back

Which codepoints are shown by their number is up to tables. Whatever the tables say, a codepoint is
shown in one of three forms, and no form is the beginning of another, so that text with escapes is
read back codepoint by codepoint. No form begins with the quote that the text stands between.

- `Text.Shows`: a form shows a codepoint.
- `Text.Shows.unique`: what a text begins with shows one codepoint.
- `Text.newline_not_mem_escape`: text with escapes has no newline.
- `Text.escape_append_quote_inj`: text with escapes, and what comes behind its closing quote, can be
  told apart.
-/

namespace Lexis.Text

/-- The codepoint that is shown by a backslash and a sign. -/
def named? : Char → Option Char
  | '0' => some '\x00'
  | 't' => some '\t'
  | 'r' => some '\r'
  | 'n' => some '\n'
  | '\\' => some '\\'
  | '"' => some '"'
  | '\'' => some '\''
  | _ => none

/-- A form shows a codepoint: by a sign, by its number or by itself. Backslashes, single quotes and
newlines are not shown by themselves. -/
inductive Shows : List Char → Char → Prop
  | sign {sign c : Char} (h : named? sign = some c) : Shows ['\\', sign] c
  | number (c : Char) : Shows (escapeNumber c) c
  | plain {c : Char} (hbackslash : c ≠ '\\') (hquote : c ≠ '\'') (hnewline : c ≠ '\n') : Shows [c] c

/-- Whatever else a style escapes, what it writes shows the codepoint. -/
theorem shows_escapeChar {style : EscapeStyle} (hquote : style.singleQuote = true) (c : Char) :
    Shows (escapeChar style c) c := by
  unfold escapeChar
  split
  next hc => subst hc; exact .sign rfl
  split
  next hc => subst hc; exact .sign rfl
  split
  next hc => subst hc; exact .sign rfl
  split
  next hc => subst hc; exact .sign rfl
  next hnewline =>
  split
  next hc => subst hc; exact .sign rfl
  next hbackslash =>
  split
  next hc => obtain ⟨rfl, -⟩ := hc; exact .sign rfl
  split
  next hc => obtain ⟨rfl, -⟩ := hc; exact .sign rfl
  next hprime =>
  -- what is left is up to the tables, and shown by its number or by itself
  split
  · exact .number c
  split
  · exact .number c
  · exact .plain hbackslash (fun hc => hprime ⟨hc, hquote⟩) hnewline

theorem escapeNumber_append (c : Char) (s : List Char) :
    escapeNumber c ++ s = '\\' :: 'u' :: '\x7b' :: (hexDigits c.toNat ++ '\x7d' :: s) := by
  rw [escapeNumber, List.append_assoc, List.append_assoc]
  rfl

/-- A number is told by its digits, which end at the brace behind them. -/
theorem eq_of_escapeNumber_append {c d : Char} {s t : List Char}
    (h : escapeNumber c ++ s = escapeNumber d ++ t) : c = d ∧ s = t := by
  have hbrace : ∀ n, '\x7d' ∉ hexDigits n := fun n hmem =>
    absurd (isHexDigit_of_mem_hexDigits hmem) (by decide)
  rw [escapeNumber_append, escapeNumber_append] at h
  simp only [List.cons.injEq, true_and] at h
  obtain ⟨hdigits, hrest⟩ := eq_of_append_cons_eq (hbrace _) (hbrace _) h
  refine ⟨?_, hrest⟩
  rw [← Char.ofNat_toNat c, ← hexValue_hexDigits c.toNat, hdigits, hexValue_hexDigits,
    Char.ofNat_toNat]

namespace Shows

variable {form other s t : List Char} {c d : Char}

theorem newline_not_mem (h : Shows form c) : '\n' ∉ form := by
  cases h with
  | sign h =>
    intro hmem
    rcases List.mem_cons.1 hmem with hmem | hmem
    · cases hmem
    · obtain rfl := List.mem_singleton.1 hmem
      cases h
  | number =>
    intro hmem
    rcases List.mem_append.1 hmem with hmem | hmem
    · rcases List.mem_append.1 hmem with hmem | hmem
      · exact absurd hmem (by decide)
      · exact absurd (isHexDigit_of_mem_hexDigits hmem) (by decide)
    · exact absurd hmem (by decide)
  | plain _ _ hnewline => exact fun hmem => hnewline (List.mem_singleton.1 hmem).symm

/-- A form does not begin with a single quote. -/
theorem append_ne_quote_cons (h : Shows form c) : form ++ s ≠ '\'' :: t := by
  intro heq
  cases h with
  | sign => cases heq
  | number => cases heq
  | plain _ hquote _ => exact hquote (List.cons.inj heq).1

/-- **What a text begins with shows one codepoint**, whatever follows it. -/
theorem unique (h : Shows form c) (h' : Shows other d) (heq : form ++ s = other ++ t) :
    c = d ∧ s = t := by
  cases h with
  | sign hc =>
    cases h' with
    | sign hd =>
      simp only [List.cons_append, List.nil_append, List.cons.injEq, true_and] at heq
      obtain ⟨rfl, rfl⟩ := heq
      exact ⟨Option.some.inj (hc.symm.trans hd), rfl⟩
    | number =>
      -- no codepoint is shown by the sign `u`
      rw [escapeNumber_append] at heq
      simp only [List.cons_append, List.nil_append, List.cons.injEq, true_and] at heq
      obtain ⟨rfl, -⟩ := heq
      cases hc
    | plain hbackslash => exact absurd (List.cons.inj heq).1.symm hbackslash
  | number =>
    cases h' with
    | sign hd =>
      rw [escapeNumber_append] at heq
      simp only [List.cons_append, List.nil_append, List.cons.injEq, true_and] at heq
      obtain ⟨rfl, -⟩ := heq
      cases hd
    | number => exact eq_of_escapeNumber_append heq
    | plain hbackslash => exact absurd (List.cons.inj heq).1.symm hbackslash
  | plain hbackslash =>
    cases h' with
    | sign => exact absurd (List.cons.inj heq).1 hbackslash
    | number => exact absurd (List.cons.inj heq).1 hbackslash
    | plain => exact List.cons.inj heq

end Shows

/-! ## Texts -/

variable {text other s t : List Char}

/-- Text with escapes shows its codepoints one after the other. The first one has a style of its
own. -/
theorem exists_shows_escape (text : List Char) :
    ∃ forms, escape text = forms.flatten ∧ List.Forall₂ Shows forms text := by
  cases text with
  | nil => exact ⟨[], rfl, .nil⟩
  | cons c rest =>
    refine ⟨escapeChar ⟨true, true, true⟩ c :: rest.map (escapeChar ⟨true, true, false⟩), ?_,
      .cons (shows_escapeChar rfl c) ?_⟩
    · rw [escape, List.flatten_cons, List.flatMap_def]
    · rw [List.forall₂_map_left_iff, List.forall₂_same]
      exact fun d _ => shows_escapeChar rfl d

/-- **Text with escapes is one line**, whatever the text. -/
theorem newline_not_mem_escape (text : List Char) : '\n' ∉ escape text := by
  cases text with
  | nil => exact List.not_mem_nil
  | cons c rest =>
    intro hmem
    rcases List.mem_append.1 hmem with hmem | hmem
    · exact (shows_escapeChar rfl c).newline_not_mem hmem
    · obtain ⟨d, -, hmem⟩ := List.mem_flatMap.1 hmem
      exact (shows_escapeChar rfl d).newline_not_mem hmem

/-- Forms that a quote closes show one text. -/
theorem eq_of_shows_append {forms others : List (List Char)} (h : List.Forall₂ Shows forms text)
    (h' : List.Forall₂ Shows others other)
    (heq : forms.flatten ++ '\'' :: s = others.flatten ++ '\'' :: t) : text = other ∧ s = t := by
  induction h generalizing others other with
  | nil =>
    cases h' with
    | nil => exact ⟨rfl, (List.cons.inj heq).2⟩
    | cons hshow _ =>
      rw [List.flatten_cons, List.append_assoc] at heq
      exact absurd heq.symm hshow.append_ne_quote_cons
  | cons hshow _ ih =>
    cases h' with
    | nil =>
      rw [List.flatten_cons, List.append_assoc] at heq
      exact absurd heq hshow.append_ne_quote_cons
    | cons hother hrest =>
      rw [List.flatten_cons, List.flatten_cons, List.append_assoc, List.append_assoc] at heq
      obtain ⟨rfl, heq⟩ := hshow.unique hother heq
      obtain ⟨rfl, rfl⟩ := ih hrest heq
      exact ⟨rfl, rfl⟩

/-- **Text with escapes can be read back** up to its closing quote, and tells what comes behind. -/
theorem escape_append_quote_inj :
    escape text ++ '\'' :: s = escape other ++ '\'' :: t ↔ text = other ∧ s = t := by
  constructor
  · intro heq
    obtain ⟨forms, hforms, hshows⟩ := exists_shows_escape text
    obtain ⟨others, hothers, hshows'⟩ := exists_shows_escape other
    rw [hforms, hothers] at heq
    exact eq_of_shows_append hshows hshows' heq
  · rintro ⟨rfl, rfl⟩
    rfl

end Lexis.Text
