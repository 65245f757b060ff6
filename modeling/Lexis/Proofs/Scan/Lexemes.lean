import Lexis.Proofs.Piece.Meaning
import Lexis.Proofs.Scan.Reach

/-!
# The lexemes of a scan

- `Lexeme.StandsIn`: what a lexeme carries agrees with the source text.
- `SourceText.standsIn_of_mem_scan`: every lexeme of a scan does.
- `maximal_munch`: every lexeme covers the longest token there is at its place, in the language of
  its own kind and of no other.
-/

namespace Lexis

/-- What a lexeme carries agrees with a source text: it is the token that is read at its first
offset, its places are counted from the start of the text, and they are as far apart as its text is
long. -/
structure Lexeme.StandsIn (source : SourceText) (lexeme : Lexeme) : Prop where
  read?_eq : Piece.read? (source.chars.drop lexeme.span.first.offset) =
    some (.token lexeme.kind lexeme.text)
  first_eq : lexeme.span.first = source.locationAt lexeme.span.first.offset
  last_eq : lexeme.span.last = source.locationAt lexeme.span.last.offset
  last_offset : lexeme.span.last.offset = lexeme.span.first.offset + lexeme.text.length
  last_le : lexeme.span.last.offset ≤ source.length

variable {source : SourceText} {lexeme : Lexeme}

/-- Every lexeme of a scan stands in the scanned text. -/
theorem SourceText.standsIn_of_mem_scan (h : lexeme ∈ source.scan.lexemes) :
    lexeme.StandsIn source := by
  obtain ⟨first, hfirst, hread, hspan⟩ := read?_of_mem_scan h
  have hpre : lexeme.text <+: source.chars.drop first := (Piece.means_of_read? hread).2.isPrefix
  have hle : first + lexeme.text.length ≤ source.length := by
    have hlen := hpre.length_le
    rw [List.length_drop] at hlen
    have hchars : source.chars.length = source.length := rfl
    omega
  -- the place of an offset inside the text has that offset, so the span leads back to `first`
  have hoffset : lexeme.span.first.offset = first := by
    rw [hspan]
    exact offset_locationAt hfirst
  have hlast : lexeme.span.last.offset = first + lexeme.text.length := by
    rw [hspan]
    exact offset_locationAt hle
  refine ⟨?_, ?_, ?_, ?_, ?_⟩
  · rw [hoffset]
    exact hread
  · rw [hoffset, hspan]
  · rw [hlast, hspan]
  · rw [hlast, hoffset]
  · rw [hlast]
    exact hle

namespace Lexeme.StandsIn

/-- The text of a lexeme is what the source has between its places. -/
theorem contents_eq (h : lexeme.StandsIn source) : source.contents lexeme.span = lexeme.text := by
  have hpre := (Piece.means_of_read? h.read?_eq).2.isPrefix
  rw [SourceText.contents, SourceText.slice, List.drop_take, h.last_offset, Nat.add_sub_cancel_left]
  exact (List.prefix_iff_eq_take.1 hpre).symm

/-- Two lexemes that stand at one place are one. -/
theorem eq_of_offset_eq {other : Lexeme} (h : lexeme.StandsIn source) (h' : other.StandsIn source)
    (hoffset : other.span.first.offset = lexeme.span.first.offset) : other = lexeme := by
  have hread := h'.read?_eq
  rw [hoffset, h.read?_eq] at hread
  obtain ⟨hkind, htext⟩ := Piece.token.inj (Option.some.inj hread)
  have hfirst : other.span.first = lexeme.span.first := by
    rw [h'.first_eq, h.first_eq, hoffset]
  have hlast : other.span.last = lexeme.span.last := by
    rw [h'.last_eq, h.last_eq, h'.last_offset, h.last_offset, hoffset, htext]
  obtain ⟨kind, text, first, last⟩ := lexeme
  obtain ⟨kind', text', first', last'⟩ := other
  dsimp only at hkind htext hfirst hlast
  rw [hkind, htext, hfirst, hlast]

end Lexeme.StandsIn

/-- **Maximal munch.** Whether or not a scan fails in the end, the text that a lexeme covers is in
the language of the lexeme's kind and of no other kind, and no longer text at its place is in any
of the languages. -/
theorem maximal_munch (source : SourceText) (lexeme : Lexeme)
    (h : lexeme ∈ source.scan.lexemes) :
    lexeme.kind.Language (source.contents lexeme.span) ∧
    (∀ other : Kind, other.Language (source.contents lexeme.span) → other = lexeme.kind) ∧
    Text.IsLongest IsTokenText (source.contents lexeme.span)
      (source.chars.drop lexeme.span.first.offset) := by
  have hs := SourceText.standsIn_of_mem_scan h
  obtain ⟨hkind, hlongest⟩ := Piece.means_of_read? hs.read?_eq
  rw [hs.contents_eq]
  exact ⟨hkind, fun other hother => hkind.unique hother, hlongest⟩

/-- An identifier that takes in the underscore after a keyword, in a text whose scan fails later. -/
theorem maximal_munch_keyword_underscore :
    Kind.identifier.Language ['i', 'f', '_'] ∧
    Text.IsLongest IsTokenText ['i', 'f', '_'] ['i', 'f', '_', '1', '.', '.', '\''] := by
  have h := maximal_munch ⟨['i', 'f', '_', '1', '.', '.', '\'']⟩
    ⟨.identifier, ['i', 'f', '_'], ⟨⟨0, 1, 1⟩, ⟨3, 1, 4⟩⟩⟩ (by decide +kernel)
  exact ⟨h.1, h.2.2⟩

end Lexis
