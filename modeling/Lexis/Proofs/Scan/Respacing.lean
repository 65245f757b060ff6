import Mathlib.Data.List.Forall2
import Lexis.Proofs.Scan.Layout

/-!
# Spacing carries no meaning

Every source without an error is laid out as its lexemes and the gaps around them. The gaps may be
replaced by others, as long as no two lexemes come to touch that did not touch before: the tokens
stay the same. What a token depends on is two codepoints at most and no part of a gap, so that it
makes no difference to two tokens that touch what becomes of a gap further on.

- `Layout.prepend`, `Cursor.exists_layout`: every source without an error has a layout.
- `Layout.ScansBack.tokensRead`: the tokens of a layout that scans back are read where they are.
- `Layout.Respaced`: a layout with its gaps replaced.
- `Layout.sameAhead_of_respaced`: after a token it begins as before.
- `Layout.Loosened`: a layout with comments replaced by spaces, and with spaces put in.
- `spacing_carries_no_meaning`: all of it together.
-/

namespace Lexis

/-! ## Sources are laid out -/

namespace Layout

/-- A layout with a gap put before everything. -/
def prepend (gap : List Char) : Layout → Layout
  | ⟨[], last⟩ => ⟨[], gap ++ last⟩
  | ⟨part :: parts, last⟩ => ⟨{ part with gap := gap ++ part.gap } :: parts, last⟩

variable {gap last last' : List Char} {part : Part} {parts parts' : List Part}
  {layout old new : Layout}

theorem chars_prepend (gap : List Char) (layout : Layout) :
    (layout.prepend gap).chars = gap ++ layout.chars := by
  obtain ⟨_ | ⟨part, parts⟩, last⟩ := layout
  · rfl
  · simp [prepend, chars]

theorem tokensRead_prepend (h : TokensRead layout.last layout.parts) :
    TokensRead (layout.prepend gap).last (layout.prepend gap).parts := by
  obtain ⟨_ | ⟨part, parts⟩, last⟩ := layout
  · trivial
  · exact h

/-- Tokens that are read are not empty. -/
theorem TokensRead.text_ne_nil (h : TokensRead last parts) : ∀ part ∈ parts, part.text ≠ [] := by
  induction parts with
  | nil => exact fun part hpart => absurd hpart List.not_mem_nil
  | cons part parts ih =>
    refine List.forall_mem_cons.2 ⟨?_, ih h.2⟩
    exact List.length_pos_iff.1 (Piece.length_pos_of_read? h.1)

/-- Skipped text goes with the gap before the first token, or with the gap at the end. -/
theorem Spaced.prepend (h : layout.Spaced) (htokens : TokensRead layout.last layout.parts)
    (hskipped : Piece.Skipped gap layout.chars) : (layout.prepend gap).Spaced := by
  obtain ⟨_ | ⟨part, parts⟩, last⟩ := layout
  · exact ⟨fun part hpart => absurd hpart List.not_mem_nil, .append hskipped h.blank⟩
  · obtain ⟨hgap, hgaps⟩ := List.forall_mem_cons.1 h.spacing
    have htext := htokens.text_ne_nil part List.mem_cons_self
    have hne : (Layout.mk (part :: parts) last).chars ≠ [] := by simp [chars, htext]
    refine ⟨List.forall_mem_cons.2 ⟨?_, hgaps⟩, h.blank⟩
    exact .append (fun after => hskipped.of_ne_nil hne after) hgap

end Layout

/-- **What a scan without an error has ahead is laid out** as tokens with gaps around them. -/
theorem Cursor.exists_layout {cursor : Cursor} (h : cursor.scan.error = none) :
    ∃ layout : Layout, layout.chars = cursor.rest ∧ layout.Spaced ∧
      Layout.TokensRead layout.last layout.parts := by
  induction cursor using reading with
  | finished cursor hread =>
    refine ⟨⟨[], []⟩, (Piece.read?_eq_none_iff.1 hread).symm, ⟨?_, .nil⟩, trivial⟩
    exact fun part hpart => absurd hpart List.not_mem_nil
  | gap cursor text hread ih =>
    rw [scan_of_gap hread] at h
    obtain ⟨layout, hchars, hspaced, htokens⟩ := ih h
    obtain ⟨rest, hrest, hskipped⟩ := Piece.read?_eq_gap_iff.1 hread
    -- the gap goes in front of the first token of what follows
    have hchars' : layout.chars = rest := hchars.trans (rest_skip_of_eq hrest)
    rw [← hchars'] at hrest hskipped
    refine ⟨layout.prepend text, ?_, hspaced.prepend htokens hskipped,
      Layout.tokensRead_prepend htokens⟩
    rw [Layout.chars_prepend, hrest]
  | token cursor kind text hread ih =>
    rw [scan_of_token hread] at h
    obtain ⟨layout, hchars, hspaced, htokens⟩ := ih h
    obtain ⟨rest, hrest⟩ := (Piece.means_of_read? hread).2.isPrefix
    -- a token is a part by itself, with no gap before it yet
    have hchars' : layout.chars = rest := hchars.trans (rest_skip_of_eq hrest.symm)
    rw [← hchars'] at hrest
    rw [← hrest] at hread
    refine ⟨⟨⟨[], kind, text⟩ :: layout.parts, layout.last⟩, ?_, ?_, hread, htokens⟩
    · rw [Layout.chars_cons, ← hrest]
      rfl
    · exact ⟨List.forall_mem_cons.2 ⟨.nil, hspaced.spacing⟩, hspaced.blank⟩
  | fault cursor cause place taken hread =>
    rw [scan_of_fault hread] at h
    exact absurd h (by simp)

/-! ## Layouts that scan back -/

namespace Layout

variable {gap last last' : List Char} {part : Part} {parts parts' : List Part}
  {layout old new : Layout}

/-- Where the tokens of parts are laid out as lexemes that stand in a source, they are read. -/
theorem tokensRead_of_standsIn {source : SourceText} (before : List Char)
    (hchars : source.chars = before ++ (Layout.mk parts last).chars)
    (h : ∀ lexeme ∈ lexemesFrom (Location.start.after before) parts, lexeme.StandsIn source) :
    TokensRead last parts := by
  induction parts generalizing before with
  | nil => trivial
  | cons part parts ih =>
    obtain ⟨hs, hlater⟩ := List.forall_mem_cons.1 h
    rw [chars_cons] at hchars
    have hoffset : ((Location.start.after before).after part.gap).offset =
        (before ++ part.gap).length := by
      rw [← Location.after_append, Location.offset_after]
      exact Nat.zero_add _
    have hdrop : source.chars.drop (before ++ part.gap).length =
        part.text ++ (Layout.mk parts last).chars := by
      rw [hchars, ← List.append_assoc, List.drop_left]
    refine ⟨?_, ih (before ++ part.gap ++ part.text) ?_ ?_⟩
    · rw [← hdrop, ← hoffset]
      exact hs.read?_eq
    · rw [hchars]
      simp
    · rw [Location.after_append, Location.after_append]
      exact hlater

/-- The tokens of a layout that scans back are read where they are laid out. -/
theorem ScansBack.tokensRead (h : layout.ScansBack) (hwhole : layout.source.IsWhole) :
    TokensRead layout.last layout.parts := by
  have hstands : ∀ lexeme ∈ layout.lexemes, lexeme.StandsIn layout.source := by
    intro lexeme hmem
    refine SourceText.standsIn_of_mem_scan ?_
    rw [h]
    exact hmem
  exact tokensRead_of_standsIn [] hwhole.chars_eq hstands

/-! ## Gaps replaced -/

theorem forall₂_tail {R : Part → Part → Prop} (h : List.Forall₂ R parts parts') :
    List.Forall₂ R parts.tail parts'.tail := by
  cases h with
  | nil => exact .nil
  | cons hfirst h => exact h

/-- The tokens of a layout. -/
def tokens (layout : Layout) : List (Kind × List Char) :=
  layout.parts.map fun part => (part.kind, part.text)

/-- The second part has a gap before its token if the first one has. -/
def KeepsGap (part part' : Part) : Prop := part.gap ≠ [] → part'.gap ≠ []

/-- The second layout is the first with its gaps replaced, and between tokens a gap is left where
there was one. -/
structure Respaced (old new : Layout) : Prop where
  tokens_eq : new.tokens = old.tokens
  inner : List.Forall₂ KeepsGap old.parts.tail new.parts.tail
  spaced : new.Spaced

/-- **After a token, layouts begin alike**: they have the same tokens up to the first gap that has
changed, and there the second one has a gap too. -/
theorem sameAhead_of_respaced
    (htokens : (Layout.mk parts' last').tokens = (Layout.mk parts last).tokens)
    (hgaps : List.Forall₂ KeepsGap parts parts')
    (hspaced : (Layout.mk parts' last').Spaced) :
    SameAhead (Layout.mk parts last).chars (Layout.mk parts' last').chars := by
  induction hgaps with
  | nil => exact sameAhead_of_gapAhead hspaced.blank.gapAhead
  | @cons part part' parts parts' hgap hgaps ih =>
    obtain ⟨htoken, htokens⟩ := List.cons.inj htokens
    obtain ⟨hspacing, hspaced'⟩ := hspaced.of_cons
    by_cases hempty : part'.gap = []
    · have hempty' : part.gap = [] := by_contra fun hne => hgap hne hempty
      have htext : part'.text = part.text := (Prod.mk.inj htoken).2
      rw [chars_cons, chars_cons, hempty, hempty', htext]
      exact (ih htokens hspaced').append part.text
    · rw [chars_cons part']
      exact sameAhead_of_gapAhead (hspacing.gapAhead hempty _)

/-- **Tokens are read with the gaps replaced.** -/
theorem TokensRead.respaced (h : TokensRead last parts)
    (htokens : (Layout.mk parts' last').tokens = (Layout.mk parts last).tokens)
    (hinner : List.Forall₂ KeepsGap parts.tail parts'.tail)
    (hspaced : (Layout.mk parts' last').Spaced) : TokensRead last' parts' := by
  induction parts generalizing parts' with
  | nil =>
    obtain rfl : parts' = [] := List.map_eq_nil_iff.1 htokens
    trivial
  | cons part parts ih =>
    cases parts' with
    | nil => exact trivial
    | cons part' parts' =>
      obtain ⟨hread, hreads⟩ := h
      obtain ⟨htoken, htokens⟩ := List.cons.inj htokens
      obtain ⟨hkind, htext⟩ := Prod.mk.inj htoken
      have hspaced' := hspaced.of_cons.2
      obtain ⟨hlanguage, hends⟩ := Piece.read?_append_eq_token_iff.1 hread
      refine ⟨?_, ih hreads htokens (forall₂_tail hinner) hspaced'⟩
      rw [hkind, htext]
      exact Piece.read?_of_endsBefore hlanguage
        (hends.of_sameAhead (sameAhead_of_respaced htokens hinner hspaced'))

/-- **A layout that scans back scans back with its gaps replaced**, where both are within reach. -/
theorem ScansBack.respaced (h : old.ScansBack) (hold : old.source.IsWhole)
    (hnew : new.source.IsWhole) (hgaps : old.Respaced new) : new.ScansBack :=
  hgaps.spaced.scansBack hnew
    ((h.tokensRead hold).respaced hgaps.tokens_eq hgaps.inner hgaps.spaced)

/-! ## Comments replaced and spaces put in -/

/-- What stands before `after`, with some of its gaps replaced by a space each; where something does
follow, spaces may be put in as well. -/
inductive GapLoosened (after : List Char) : List Char → List Char → Prop
  | nil : GapLoosened after [] []
  | keep {gap old new : List Char} (hskipped : Piece.Skipped gap (old ++ after))
    (h : GapLoosened after old new) : GapLoosened after (gap ++ old) (gap ++ new)
  | replace {gap old new : List Char} (hskipped : Piece.Skipped gap (old ++ after))
    (h : GapLoosened after old new) : GapLoosened after (gap ++ old) (' ' :: new)
  | space {old new : List Char} (hafter : after ≠ []) (h : GapLoosened after old new) :
    GapLoosened after old (' ' :: new)

/-- The second layout is the first with some of its comments replaced by a space each, and with
spaces put in before tokens. -/
structure Loosened (old new : Layout) : Prop where
  tokens_eq : new.tokens = old.tokens
  parts : List.Forall₂ (fun part part' => GapLoosened part.text part.gap part'.gap)
    old.parts new.parts
  last : GapLoosened [] old.last new.last

namespace GapLoosened

variable {after gap gap' : List Char}

/-- What stands before a token may do so afterwards. -/
theorem spacing (h : GapLoosened after gap gap') (hafter : after ≠ []) : Spacing gap' := by
  induction h with
  | nil => exact .nil
  | keep hskipped h ih =>
    exact .append (hskipped.of_ne_nil (List.append_ne_nil_of_right_ne_nil _ hafter)) ih
  | replace hskipped h ih => exact .append Piece.Skipped.space ih
  | space hafter h ih => exact .append Piece.Skipped.space ih

/-- A gap is left where there was one. -/
theorem ne_nil (h : GapLoosened after gap gap') (hne : gap ≠ []) : gap' ≠ [] := by
  cases h with
  | nil => exact hne
  | keep hskipped h =>
    exact List.append_ne_nil_of_left_ne_nil (List.length_pos_iff.1 hskipped.length_pos) _
  | replace hskipped h => exact List.cons_ne_nil _ _
  | space hafter h => exact List.cons_ne_nil _ _

/-- At the end of a text there is no gap where there was none. -/
theorem eq_nil (h : GapLoosened [] gap gap') (hgap : gap = []) : gap' = [] := by
  cases h with
  | nil => rfl
  | keep hskipped h =>
    exact absurd (List.append_eq_nil_iff.1 hgap).1 (List.length_pos_iff.1 hskipped.length_pos)
  | replace hskipped h =>
    exact absurd (List.append_eq_nil_iff.1 hgap).1 (List.length_pos_iff.1 hskipped.length_pos)
  | space hafter h => exact absurd rfl hafter

/-- What stands at the end of a text may do so afterwards. -/
theorem blank (h : GapLoosened [] gap gap') : Blank gap' := by
  induction h with
  | nil => exact .nil
  | @keep gap old new hskipped h ih =>
    rw [List.append_nil] at hskipped
    by_cases hold : old = []
    · -- a comment without a newline stays the last there is
      rw [hold] at hskipped
      exact .append (h.eq_nil hold ▸ hskipped) ih
    · exact .append (hskipped.of_ne_nil hold new) ih
  | replace hskipped h ih => exact .append (Piece.Skipped.space _) ih
  | space hafter h ih => exact .append (Piece.Skipped.space _) ih

end GapLoosened

theorem spacing_of_loosened
    (h : List.Forall₂ (fun part part' => GapLoosened part.text part.gap part'.gap) parts parts')
    (htexts : ∀ part ∈ parts, part.text ≠ []) : ∀ part ∈ parts', Spacing part.gap := by
  induction h with
  | nil => exact fun part hpart => absurd hpart List.not_mem_nil
  | cons hgap h ih =>
    obtain ⟨htext, htexts⟩ := List.forall_mem_cons.1 htexts
    exact List.forall_mem_cons.2 ⟨hgap.spacing htext, ih htexts⟩

/-- **To loosen a layout is to replace its gaps.** -/
theorem Loosened.respaced (h : old.Loosened new) (htexts : ∀ part ∈ old.parts, part.text ≠ []) :
    old.Respaced new := by
  refine ⟨h.tokens_eq, ?_, spacing_of_loosened h.parts htexts, h.last.blank⟩
  exact (forall₂_tail h.parts).imp fun part part' hgap => hgap.ne_nil

end Layout

/-! ## Tokens stay the same -/

/-- What the lexemes of a scan are, without where they stand. -/
def Scan.tokens (scan : Scan) : List (Kind × List Char) :=
  scan.lexemes.map fun lexeme => (lexeme.kind, lexeme.text)

theorem Layout.tokens_lexemesFrom (place : Location) (parts : List Part) :
    (lexemesFrom place parts).map (fun lexeme => (lexeme.kind, lexeme.text)) =
      parts.map fun part => (part.kind, part.text) := by
  induction parts generalizing place with
  | nil => rfl
  | cons part parts ih => exact congrArg _ (ih _)

/-- What is scanned back is the tokens of the layout. -/
theorem Layout.ScansBack.tokens_eq {layout : Layout} (h : layout.ScansBack) :
    layout.source.scan.tokens = layout.tokens := by
  rw [Scan.tokens, h]
  exact tokens_lexemesFrom _ _

/-- **Spacing carries no meaning.** A source that is scanned without an error is laid out as its
lexemes with gaps alone around them. Whatever gaps these are replaced by, if between any two lexemes
some gap is left where there was one and all of the new source is within reach, the new source is
scanned without an error to lexemes of the same kinds and texts. So it is when comments are replaced
by spaces, and when spaces are put in between lexemes. -/
theorem spacing_carries_no_meaning :
    (∀ source : SourceText, source.scan.error = none →
      ∃ layout : Layout, layout.chars = source.chars ∧ layout.Spaced ∧
        layout.source.IsWhole ∧ layout.ScansBack ∧ layout.lexemes = source.scan.lexemes) ∧
    (∀ old new : Layout, old.source.IsWhole → new.source.IsWhole →
      old.ScansBack → old.Respaced new →
      new.source.scan.error = none ∧ new.source.scan.tokens = old.source.scan.tokens) ∧
    (∀ old new : Layout, old.source.IsWhole → new.source.IsWhole →
      old.ScansBack → old.Loosened new →
      new.source.scan.error = none ∧ new.source.scan.tokens = old.source.scan.tokens) := by
  have hrespaced : ∀ old new : Layout, old.source.IsWhole → new.source.IsWhole →
      old.ScansBack → old.Respaced new →
      new.source.scan.error = none ∧ new.source.scan.tokens = old.source.scan.tokens := by
    intro old new hold hnew hscan hgaps
    have hback := hscan.respaced hold hnew hgaps
    exact ⟨congrArg Scan.error hback, by rw [hback.tokens_eq, hscan.tokens_eq, hgaps.tokens_eq]⟩
  refine ⟨?_, hrespaced, ?_⟩
  · -- the layout of a source is what its scan has passed
    intro source herror
    obtain ⟨layout, hchars, hspaced, htokens⟩ := Cursor.exists_layout herror
    have hchars : layout.chars = source.chars := hchars
    have hwhole : layout.source.IsWhole := by
      rw [Layout.source, hchars]
      exact source.isWhole_mk_chars
    have hscan : source.scan = ⟨layout.lexemes, none⟩ := hspaced.scan_eq htokens hchars.symm
    exact ⟨layout, hchars, hspaced, hwhole, hspaced.scansBack hwhole htokens,
      (congrArg Scan.lexemes hscan).symm⟩
  · -- gaps that are only put in are a change of gaps
    intro old new hold hnew hscan hgaps
    have htexts := (hscan.tokensRead hold).text_ne_nil
    exact hrespaced old new hold hnew hscan (hgaps.respaced htexts)

/-- The comments become spaces, and a space comes between the number and its point. What the number
and the point could depend on is further on, and it changes too. -/
theorem spacing_carries_no_meaning_point :
    (SourceText.mk ['1', ' ', '.', ' ', 'e', ' ', ' ']).scan.tokens =
      (SourceText.mk ['1', '.', '#', '0', '\n', 'e', ' ', '#', '0']).scan.tokens := by
  have hcomment : Piece.Skipped ['#', '0', '\n'] ['e'] :=
    @Piece.Skipped.line ['0'] (by decide) (by decide) ['e']
  have hlast : Piece.Skipped ['#', '0'] [] := @Piece.Skipped.lastLine ['0'] (by decide) (by decide)
  refine (spacing_carries_no_meaning.2.2
    ⟨[⟨[], .decimal, ['1']⟩, ⟨[], .mark .dot, ['.']⟩, ⟨['#', '0', '\n'], .identifier, ['e']⟩],
      [' ', '#', '0']⟩
    ⟨[⟨[], .decimal, ['1']⟩, ⟨[' '], .mark .dot, ['.']⟩, ⟨[' '], .identifier, ['e']⟩], [' ', ' ']⟩
    (by decide) (by decide) ?_ ⟨rfl, .cons .nil (.cons ?_ (.cons ?_ .nil)), ?_⟩).2
  · unfold Layout.ScansBack
    decide +kernel
  · exact .space (by decide) .nil
  · exact .replace hcomment .nil
  · have hspace : Piece.Skipped [' '] ['#', '0'] := .space _
    exact .keep hspace (.replace hlast .nil)

/-- A number that is moved as far on as a text can be long: the gap before it may be replaced so,
and the number is lost. -/
theorem far_token_is_not_kept :
    (Layout.mk [⟨[], .decimal, ['1']⟩] []).ScansBack ∧
      (Layout.mk [⟨[], .decimal, ['1']⟩] []).Respaced (Layout.far 4294967293) ∧
      (Layout.far 4294967293).source.scan.tokens = [] ∧
      (Layout.mk [⟨[], .decimal, ['1']⟩] []).source.scan.tokens = [(.decimal, ['1'])] := by
  have hback : (Layout.mk [⟨[], .decimal, ['1']⟩] []).ScansBack := by
    unfold Layout.ScansBack
    decide +kernel
  have hlength : 4294967293 + 2 = SourceText.maxLength := rfl
  exact ⟨hback, ⟨rfl, .nil, Layout.spaced_far _⟩,
    congrArg Scan.tokens (Layout.scan_far hlength), hback.tokens_eq⟩

end Lexis
