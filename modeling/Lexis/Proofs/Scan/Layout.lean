import Lexis.Proofs.Scan.Coverage
import Lexis.Proofs.Token.Ends

/-!
# Texts laid out as tokens

A text can be put together from tokens and gaps. What is put together scans back when each token is
read where it is laid out, and it is read there when it has a gap on either side.

- `Part`, `Layout`: tokens with the gaps before them, and the gap at the end.
- `Layout.ScansBack`: a layout is scanned to the tokens that it is made of.
- `Layout.TokensRead`, `Layout.Spaced`: what it takes of the tokens and of the gaps.
- `IsTokenOf`: a text that is one token by itself, which is to be in the language of its kind and
  within reach.
- `tokens_scan_back`: tokens with gaps between them scan back.
- `Layout.far`: a number that is laid out too far away to be found.
-/

namespace Lexis

/-! ## Text before tokens -/

variable {gap rest : List Char} {cursor : Cursor}

theorem gapAhead_nil : GapAhead [] := fun _ hc => absurd hc (by simp)

/-- A gap begins with a space or a number sign. -/
theorem Piece.Skipped.gapAhead (h : Skipped gap rest) (after : List Char) :
    GapAhead (gap ++ after) := by
  intro c hc
  cases h with
  | space => exact .inl (Option.some.inj hc).symm
  | _ => exact .inr (Option.some.inj hc).symm

theorem Spacing.gapAhead (h : Spacing gap) (hne : gap ≠ []) (after : List Char) :
    GapAhead (gap ++ after) := by
  cases h with
  | nil => exact absurd rfl hne
  | append hgap h =>
    rw [List.append_assoc]
    exact (hgap []).gapAhead _

theorem Blank.gapAhead (h : Blank gap) : GapAhead gap := by
  cases h with
  | nil => exact gapAhead_nil
  | append hskipped h => exact hskipped.gapAhead _

/-! ## Layouts -/

/-- A token and the gap before it. -/
structure Part where
  gap : List Char
  kind : Kind
  text : List Char
  deriving DecidableEq, Repr

/-- Tokens with the gaps before them, and the gap after the last token. -/
structure Layout where
  parts : List Part
  last : List Char
  deriving DecidableEq, Repr

namespace Layout

/-- The text that is laid out. -/
def chars (layout : Layout) : List Char :=
  layout.parts.flatMap (fun part => part.gap ++ part.text) ++ layout.last

/-- The source with the text that is laid out. -/
def source (layout : Layout) : SourceText := ⟨layout.chars⟩

/-- The tokens of parts as lexemes, each of them where its part is laid out from a place on. -/
def lexemesFrom (place : Location) : List Part → List Lexeme
  | [] => []
  | part :: parts =>
    let first := place.after part.gap
    let last := first.after part.text
    ⟨part.kind, part.text, ⟨first, last⟩⟩ :: lexemesFrom last parts

/-- The tokens as lexemes, each of them where it is laid out. -/
def lexemes (layout : Layout) : List Lexeme := lexemesFrom Location.start layout.parts

variable {part : Part} {parts : List Part} {last : List Char} {layout : Layout}

theorem chars_cons (part : Part) (parts : List Part) (last : List Char) :
    (mk (part :: parts) last).chars = part.gap ++ (part.text ++ (Layout.mk parts last).chars) := by
  simp [chars]

/-- Every token is the one that is read where it is laid out. -/
def TokensRead (last : List Char) : List Part → Prop
  | [] => True
  | part :: parts =>
    Piece.read? (part.text ++ (Layout.mk parts last).chars) = some (.token part.kind part.text) ∧
      TokensRead last parts

/-- What is laid out before each token may stand there, and at the end there are gaps alone. -/
structure Spaced (layout : Layout) : Prop where
  spacing : ∀ part ∈ layout.parts, Spacing part.gap
  blank : Blank layout.last

theorem Spaced.of_cons (h : (Layout.mk (part :: parts) last).Spaced) :
    Spacing part.gap ∧ (Layout.mk parts last).Spaced := by
  obtain ⟨hgap, hgaps⟩ := List.forall_mem_cons.1 h.spacing
  exact ⟨hgap, hgaps, h.blank⟩

/-- A layout begins with a gap where its first token has one before it. -/
theorem Spaced.gapAhead (h : (Layout.mk parts last).Spaced)
    (hfirst : ∀ part, parts.head? = some part → part.gap ≠ []) :
    GapAhead (Layout.mk parts last).chars := by
  cases parts with
  | nil => exact h.blank.gapAhead
  | cons part parts =>
    rw [chars_cons]
    exact h.of_cons.1.gapAhead (hfirst part rfl) _

/-- The text that is laid out is scanned to the tokens of the layout, and without an error. -/
def ScansBack (layout : Layout) : Prop := layout.source.scan = ⟨layout.lexemes, none⟩

/-- **A layout whose tokens are read is scanned to them**, from wherever it is laid out. -/
theorem Spaced.scan_eq (h : (Layout.mk parts last).Spaced) (htokens : TokensRead last parts)
    (hrest : cursor.rest = (Layout.mk parts last).chars) :
    cursor.scan = ⟨lexemesFrom cursor.location parts, none⟩ := by
  induction parts generalizing cursor with
  | nil => exact h.blank.scan_eq hrest
  | cons part parts ih =>
    obtain ⟨hgap, hspaced⟩ := h.of_cons
    obtain ⟨hread, htokens⟩ := htokens
    rw [chars_cons] at hrest
    rw [(hgap.passed hrest).1]
    have hlocation := Cursor.location_skip_of_eq hrest
    have hrest := Cursor.rest_skip_of_eq hrest
    generalize cursor.skip part.gap.length = cursor' at hlocation hrest ⊢
    have hafter := Cursor.rest_skip_of_eq hrest
    rw [← hrest] at hread
    rw [Cursor.scan_of_token hread, ih hspaced htokens hafter, Cursor.location_skip_of_eq hrest,
      hlocation]
    rfl

theorem Spaced.scansBack (h : layout.Spaced) (hwhole : layout.source.IsWhole)
    (htokens : TokensRead layout.last layout.parts) : layout.ScansBack :=
  h.scan_eq htokens hwhole.chars_eq

/-- **Tokens are read as they are laid out where gaps are between them.** -/
theorem Spaced.tokensRead (h : (Layout.mk parts last).Spaced)
    (hkinds : ∀ part ∈ parts, part.kind.Language part.text)
    (htail : ∀ part ∈ parts.tail, part.gap ≠ []) : TokensRead last parts := by
  induction parts with
  | nil => trivial
  | cons part parts ih =>
    have hspaced := h.of_cons.2
    obtain ⟨hkind, hkinds⟩ := List.forall_mem_cons.1 hkinds
    have hahead := hspaced.gapAhead fun next hnext => htail next (List.mem_of_mem_head? hnext)
    refine ⟨Piece.read?_of_endsBefore hkind (Kind.endsBefore_of_gapAhead hahead), ?_⟩
    exact ih hspaced hkinds fun next hnext => htail next (List.mem_of_mem_tail hnext)

end Layout

/-! ## Tokens by themselves -/

/-- The text is a token of the kind: scanned by itself it has one lexeme, of that kind and over all
of the text, and no error. -/
def IsTokenOf (kind : Kind) (text : List Char) : Prop :=
  ∃ lexeme : Lexeme, (SourceText.mk text).scan = ⟨[lexeme], none⟩ ∧ lexeme.kind = kind ∧
    lexeme.span.first.offset = 0 ∧ lexeme.span.last.offset = text.length

/-- **The tokens of a kind are the texts in its language** that are within reach. -/
theorem isTokenOf_iff {kind : Kind} {text : List Char} :
    IsTokenOf kind text ↔ kind.Language text ∧ text.length ≤ SourceText.maxLength := by
  constructor
  · rintro ⟨lexeme, hscan, rfl, hfirst, hlast⟩
    have hmem : lexeme ∈ (SourceText.mk text).scan.lexemes := by
      rw [hscan]
      exact List.mem_singleton_self lexeme
    have hs := SourceText.standsIn_of_mem_scan hmem
    obtain ⟨hkind, hlongest⟩ := Piece.means_of_read? hs.read?_eq
    -- the lexeme goes on to the end of all that is stored, so nothing is out of reach
    have hreach : text.length ≤ SourceText.maxLength := by
      rw [← hlast]
      exact hs.last_le.trans (SourceText.length_le _)
    -- the lexeme's text begins at the start of the text and is as long
    have hpre : lexeme.text <+: text := by
      have := hlongest.isPrefix
      rwa [hfirst, SourceText.chars_mk hreach] at this
    have hlen : lexeme.text.length = text.length := by
      rw [← hlast, hs.last_offset, hfirst, Nat.zero_add]
    rw [hpre.eq_of_length hlen] at hkind
    exact ⟨hkind, hreach⟩
  · rintro ⟨hkind, hreach⟩
    -- a text in the language is laid out as one token without gaps
    have hspaced : Layout.Spaced ⟨[⟨[], kind, text⟩], []⟩ :=
      ⟨List.forall_mem_singleton.2 .nil, .nil⟩
    have htokens := hspaced.tokensRead (List.forall_mem_singleton.2 hkind)
      fun _ h => absurd h List.not_mem_nil
    have hrest : (SourceText.mk text).cursor.rest = (Layout.mk [⟨[], kind, text⟩] []).chars := by
      simp [Layout.chars, SourceText.cursor, SourceText.chars_mk hreach]
    have hscan := hspaced.scan_eq htokens hrest
    refine ⟨_, hscan, rfl, rfl, ?_⟩
    exact (Location.offset_after _ text).trans (Nat.zero_add _)

/-! ## Tokens scan back -/

/-- **Tokens scan back.** Every lexeme of a scan, also of one that fails later, covers a text that
is a token of the lexeme's kind by itself. And wherever tokens are laid out with gaps between them,
with or without gaps before the first and after the last, and all of it is within reach, a scan
finds no error and the tokens, each of its kind and over just the codepoints where it is laid
out. -/
theorem tokens_scan_back :
    (∀ source : SourceText, ∀ lexeme ∈ source.scan.lexemes,
      IsTokenOf lexeme.kind (source.contents lexeme.span)) ∧
    ∀ layout : Layout, layout.source.IsWhole → layout.Spaced →
      (∀ part ∈ layout.parts, IsTokenOf part.kind part.text) →
      (∀ part ∈ layout.parts.tail, part.gap ≠ []) → layout.ScansBack := by
  constructor
  · intro source lexeme hlexeme
    have hs := SourceText.standsIn_of_mem_scan hlexeme
    have hlength : lexeme.text.length ≤ SourceText.maxLength := by
      have hlast := hs.last_offset
      have hle := hs.last_le.trans source.length_le
      omega
    rw [hs.contents_eq]
    exact isTokenOf_iff.2 ⟨(Piece.means_of_read? hs.read?_eq).1, hlength⟩
  · intro layout hwhole hspaced hparts htail
    refine hspaced.scansBack hwhole (hspaced.tokensRead (fun part hpart => ?_) htail)
    exact (isTokenOf_iff.1 (hparts part hpart)).1

/-- A comment that holds a quote, and a number that a point follows behind a space: neither the
comment nor the point becomes part of the number. -/
theorem tokens_scan_back_number_point :
    Layout.ScansBack
      ⟨[⟨['#', '\x7b', '"', '\x7d', '#'], .decimal, ['1']⟩, ⟨[' '], .mark .dot, ['.']⟩,
        ⟨['#', '\'', '\n'], .identifier, ['e']⟩], ['#', '1']⟩ := by
  refine tokens_scan_back.2 _ (by decide) ⟨?_, ?_⟩ ?_ (by decide)
  · have hblock : Spacing ['#', '\x7b', '"', '\x7d', '#'] :=
      .append (@Piece.Skipped.block ['"', '\x7d', '#'] ⟨by decide, by decide⟩) .nil
    have hspace : Spacing [' '] := .append .space .nil
    have hline : Spacing ['#', '\'', '\n'] :=
      .append (@Piece.Skipped.line ['\''] (by decide) (by decide)) .nil
    simpa using ⟨hblock, hspace, hline⟩
  · exact .append (@Piece.Skipped.lastLine ['1'] (by decide) (by decide)) .nil
  · have htoken : ∀ kind c, (SourceText.mk [c]).scan =
        ⟨[⟨kind, [c], ⟨Location.start, ⟨1, 1, 2⟩⟩⟩], none⟩ → IsTokenOf kind [c] :=
      fun kind c h => ⟨_, h, rfl, rfl, rfl⟩
    have hnumber := htoken .decimal '1' (by decide +kernel)
    have hpoint := htoken (.mark .dot) '.' (by decide +kernel)
    have hletter := htoken .identifier 'e' (by decide +kernel)
    simpa using ⟨hnumber, hpoint, hletter⟩

/-! ## A token out of reach -/

namespace Layout

/-- A number behind an empty comment and so many spaces. -/
def far (n : Nat) : Layout := ⟨[⟨'#' :: '\n' :: List.replicate n ' ', .decimal, ['1']⟩], []⟩

theorem spacing_far (n : Nat) : Spacing ('#' :: '\n' :: List.replicate n ' ') :=
  .append (@Piece.Skipped.line [] (by decide) (by decide)) (.of_spaces n)

theorem spaced_far (n : Nat) : (far n).Spaced :=
  ⟨List.forall_mem_singleton.2 (spacing_far n), .nil⟩

/-- Where the gap takes up all that a word counts, the number is not found, and nothing is amiss. -/
theorem scan_far {n : Nat} (hn : n + 2 = SourceText.maxLength) :
    (far n).source.scan = ⟨[], none⟩ := by
  have hlength : ('#' :: '\n' :: List.replicate n ' ').length = SourceText.maxLength := by
    rw [List.length_cons, List.length_cons, List.length_replicate]
    exact hn
  have hchars : (far n).source.chars = '#' :: '\n' :: List.replicate n ' ' := by
    rw [source, far, chars_cons]
    exact SourceText.chars_mk_append hlength _
  have hrest : (far n).source.cursor.rest = ('#' :: '\n' :: List.replicate n ' ') ++ [] := by
    rw [List.append_nil]
    exact hchars
  rw [SourceText.scan, ((spacing_far n).passed hrest).1]
  exact Cursor.scan_of_finished (Piece.read?_eq_none_iff.2 (Cursor.rest_skip_of_eq hrest))

theorem not_scansBack_far {n : Nat} (hn : n + 2 = SourceText.maxLength) : ¬(far n).ScansBack := by
  intro hback
  rw [ScansBack, scan_far hn] at hback
  exact absurd (congrArg Scan.lexemes hback) (List.cons_ne_nil _ _).symm

theorem isTokenOf_far (n : Nat) : ∀ part ∈ (far n).parts, IsTokenOf part.kind part.text := by
  have hscan : (SourceText.mk ['1']).scan =
      ⟨[⟨.decimal, ['1'], ⟨Location.start, ⟨1, 1, 2⟩⟩⟩], none⟩ := by decide +kernel
  exact List.forall_mem_singleton.2 ⟨_, hscan, rfl, rfl, rfl⟩

end Layout

/-- A token with a gap before it that is as long as a text can be: it does not scan back. -/
theorem far_token_is_lost :
    (Layout.far 4294967293).Spaced ∧
      (∀ part ∈ (Layout.far 4294967293).parts, IsTokenOf part.kind part.text) ∧
      (∀ part ∈ (Layout.far 4294967293).parts.tail, part.gap ≠ []) ∧
      ¬(Layout.far 4294967293).ScansBack := by
  have hlength : 4294967293 + 2 = SourceText.maxLength := rfl
  exact ⟨Layout.spaced_far _, Layout.isTokenOf_far _,
    fun part hpart => absurd hpart List.not_mem_nil, Layout.not_scansBack_far hlength⟩

end Lexis
