import Mathlib
import Lexis.Command.Line
import Lexis.Proofs.Text.Escaped
import Lexis.Proofs.Text.Lines
import Lexis.Proofs.Workspace.Tree

/-!
# A listing loses nothing

The lexemes of a source are listed one a line, whatever is in their texts. The line of a lexeme says
its kind, its text and, if asked for, where it stands. Each of these ends with something that it
cannot contain itself, so that the line tells them apart, and the listing tells the lexemes.

- `Kind.name_injective`, `Kind.mem_name`: what the names of kinds look like.
- `ListingEntry`: what is told of a lexeme, and its line.
- `ListingEntry.line_injective`: the line tells all of it.
- `listing_loses_nothing`: so does the whole listing.
-/

namespace Lexis

/-! ## Names of kinds -/

namespace Kind

/-- The letters of a kind's name. -/
def letters : Kind → List Char
  | keyword k => k.text.toList.map Char.toUpper
  | kind => kind.name.toList

theorem toList_name (kind : Kind) : kind.name.toList = kind.letters := by
  cases kind with
  | keyword k => exact String.toList_map
  | _ => rfl

theorem mem_all (kind : Kind) : kind ∈ all := by
  cases kind with
  | mark m => cases m <;> decide
  | quoted form => cases form <;> decide
  | keyword k => cases k <;> decide
  | _ => decide

theorem nodup_letters : (all.map letters).Nodup := by decide +kernel

/-- **Kinds have different names.** -/
theorem name_injective : Function.Injective name := by
  intro a b h
  rw [← String.toList_inj, toList_name, toList_name] at h
  exact List.inj_on_of_nodup_map nodup_letters a.mem_all b.mem_all h

/-- Names are written with capitals and underscores. -/
theorem mem_name {kind : Kind} {c : Char} (h : c ∈ kind.name.toList) :
    c.isUpper = true ∨ c = '_' := by
  have hall : all.all (fun kind => kind.letters.all fun c => c.isUpper || c == '_') = true := by
    decide +kernel
  rw [toList_name] at h
  have hc := List.all_eq_true.1 (List.all_eq_true.1 hall kind kind.mem_all) c h
  rwa [Bool.or_eq_true, beq_iff_eq] at hc

theorem space_not_mem_name (kind : Kind) : ' ' ∉ kind.name.toList := fun h =>
  absurd (mem_name h) (by decide)

theorem oneLine_name (kind : Kind) : Text.OneLine kind.name := fun h =>
  absurd (mem_name h) (by decide)

end Kind

/-! ## Numbers -/

namespace Text

theorem toDigits_injective : Function.Injective (Nat.toDigits 10) := by
  intro m n h
  rw [← Nat.ofDigitChars_ten_toDigits (n := m), h, Nat.ofDigitChars_ten_toDigits]

end Text

/-! ## Lines -/

/-- What a listing tells of a lexeme: its kind, its text and, if asked for, the line and column of
both its ends. -/
structure ListingEntry where
  kind : Kind
  text : List Char
  ends : Option ((Nat × Nat) × (Nat × Nat))
  deriving DecidableEq

/-- What a listing with spans, or without, tells of a lexeme. -/
def Lexeme.entry (spans : Bool) (lexeme : Lexeme) : ListingEntry where
  kind := lexeme.kind
  text := lexeme.text
  ends :=
    if spans then
      some ((lexeme.span.first.line, lexeme.span.first.column),
        (lexeme.span.last.line, lexeme.span.last.column))
    else none

namespace ListingEntry

/-- What a line says of the ends of a lexeme. -/
def endsDisplay : Option ((Nat × Nat) × (Nat × Nat)) → List Char
  | none => []
  | some ((line, column), (lastLine, lastColumn)) =>
    ' ' :: '@' :: ' ' :: (Nat.toDigits 10 line ++ ':' :: (Nat.toDigits 10 column ++ '-' ::
      (Nat.toDigits 10 lastLine ++ ':' :: Nat.toDigits 10 lastColumn)))

/-- The line that tells an entry. -/
def line (entry : ListingEntry) : List Char :=
  ' ' :: ' ' :: (entry.kind.name.toList ++ ' ' :: '\'' :: (Text.escape entry.text ++ '\'' ::
    endsDisplay entry.ends))

/-- The line of a lexeme tells its entry and nothing else. -/
theorem display_eq (spans : Bool) (lexeme : Lexeme) :
    lexeme.display spans = String.ofList (lexeme.entry spans).line := by
  have hescape : (String.ofList (Text.escape lexeme.text)).toList = Text.escape lexeme.text :=
    String.toList_ofList
  rw [← String.toList_inj, String.toList_ofList]
  cases spans with
  | false =>
    simp only [Lexeme.display, Bool.false_eq_true, if_false, String.toList_append, hescape]
    simp [line, Lexeme.entry, endsDisplay]
  | true =>
    simp only [Lexeme.display, if_true, String.toList_append, hescape, Span.display,
      Location.display, Text.toList_toString]
    simp [line, Lexeme.entry, endsDisplay]

theorem endsDisplay_injective : Function.Injective endsDisplay := by
  intro a b h
  have hcolon : ∀ n, ':' ∉ Nat.toDigits 10 n := Text.not_mem_toDigits (by decide)
  have hdash : ∀ n, '-' ∉ Nat.toDigits 10 n := Text.not_mem_toDigits (by decide)
  match a, b with
  | none, none => rfl
  | none, some _ => cases h
  | some _, none => cases h
  | some ((l, c), (l', c')), some ((m, d), (m', d')) =>
    simp only [endsDisplay, List.cons.injEq, true_and] at h
    obtain ⟨hline, h⟩ := Text.eq_of_append_cons_eq (hcolon l) (hcolon m) h
    obtain ⟨hcolumn, h⟩ := Text.eq_of_append_cons_eq (hdash c) (hdash d) h
    obtain ⟨hline', hcolumn'⟩ := Text.eq_of_append_cons_eq (hcolon l') (hcolon m') h
    rw [Text.toDigits_injective hline, Text.toDigits_injective hcolumn,
      Text.toDigits_injective hline', Text.toDigits_injective hcolumn']

/-- **A line tells its entry.** The name of the kind ends at the first space, the text at the first
quote that has no backslash before it, and the ends with the line. -/
theorem line_injective : Function.Injective line := by
  rintro ⟨kind, text, ends⟩ ⟨kind', text', ends'⟩ h
  simp only [line, List.cons.injEq, true_and] at h
  obtain ⟨hkind, h⟩ := Text.eq_of_append_cons_eq kind.space_not_mem_name kind'.space_not_mem_name h
  obtain ⟨htext, hends⟩ := Text.escape_append_quote_inj.1 (List.cons.inj h).2
  rw [Kind.name_injective (String.toList_inj.1 hkind), htext, endsDisplay_injective hends]

theorem newline_not_mem_endsDisplay (ends : Option ((Nat × Nat) × (Nat × Nat))) :
    '\n' ∉ endsDisplay ends := by
  have hdigits : ∀ n, '\n' ∉ Nat.toDigits 10 n := Text.not_mem_toDigits (by decide)
  match ends with
  | none => exact List.not_mem_nil
  | some ((l, c), (l', c')) => simp [endsDisplay, hdigits]

/-- A line is one line, whatever the text of the lexeme. -/
theorem newline_not_mem_line (entry : ListingEntry) : '\n' ∉ entry.line := by
  have hname : '\n' ∉ entry.kind.name.toList := entry.kind.oneLine_name
  simp [line, hname, Text.newline_not_mem_escape, newline_not_mem_endsDisplay]

end ListingEntry

/-! ## Listings -/

section Listings

variable {files files' : FileSystem} {options : LexOptions} {path : Path}
  {source source' : SourceUnit SourceText}

/-- The lines below the heading tell the entries of the lexemes, one after the other. -/
theorem map_display (spans : Bool) (lexemes : List Lexeme) :
    lexemes.map (Lexeme.display spans) =
      (lexemes.map (Lexeme.entry spans)).map fun entry => String.ofList entry.line := by
  rw [List.map_map]
  exact List.map_congr_left fun lexeme _ => ListingEntry.display_eq spans lexeme

/-- A listing is lines, if the path is shown in one. -/
theorem oneLine_of_mem_lexListing (hpath : Text.OneLine path.display) {spans : Bool}
    {lexemes : List Lexeme} {line : String} (h : line ∈ lexListing spans path lexemes) :
    Text.OneLine line := by
  rcases List.mem_cons.1 h with rfl | h
  · simp only [Text.oneLine_append_iff]
    exact ⟨⟨⟨⟨by decide, hpath⟩, by decide⟩, Text.oneLine_toString _⟩, by decide⟩
  · rw [map_display] at h
    obtain ⟨entry, -, rfl⟩ := List.mem_map.1 h
    rw [Text.OneLine, String.toList_ofList]
    exact entry.newline_not_mem_line

/-- **Listings are the same where they tell the same.** -/
theorem lexListing_inj (path : Path) {spans : Bool} {lexemes more : List Lexeme} :
    lexListing spans path lexemes = lexListing spans path more ↔
      lexemes.map (Lexeme.entry spans) = more.map (Lexeme.entry spans) := by
  have hline : Function.Injective fun entry : ListingEntry => String.ofList entry.line :=
    fun a b h => ListingEntry.line_injective (String.ofList_injective h)
  constructor
  · intro h
    have hlines := (List.cons.inj h).2
    rw [map_display, map_display] at hlines
    exact List.map_injective_iff.2 hline hlines
  · intro h
    have hlength : lexemes.length = more.length := by
      rw [← List.length_map (Lexeme.entry spans), h, List.length_map]
    rw [lexListing, lexListing, hlength, map_display, map_display, h]

/-- What is written out for a source that can be read, whether it can be scanned or not. -/
theorem FileSystem.out_lexFile (h : files.readSource options.load path = .ok source) :
    (files.lexFile options path).out =
      lexListing options.spans path source.model.scan.lexemes := by
  rw [lexFile, h]
  cases herror : source.model.scan.error <;> simp only [herror]

/-- **What is written out is the listing, line by line.** -/
theorem FileSystem.isLines_lexFile (hpath : Text.OneLine path.display)
    (h : files.readSource options.load path = .ok source) :
    Text.IsLines (files.lexFile options path).outText
      (lexListing options.spans path source.model.scan.lexemes) := by
  rw [Report.outText, out_lexFile h]
  exact ⟨rfl, fun line hline => oneLine_of_mem_lexListing hpath hline⟩

end Listings

/-- **A listing loses nothing.** Where the path is shown in one line, what is written out for any
source that can be read from there is a line for the heading and a line for each of its lexemes,
whatever stands in their texts and whether an error follows them or not. And two sources that are
listed in the same way give the same output exactly if their lexemes have, one by one, the same
kinds, the same texts and, where spans are asked for, the same lines and columns. -/
theorem listing_loses_nothing (options : LexOptions) (path : Path)
    (hpath : Text.OneLine path.display) :
    (∀ (files : FileSystem) (source : SourceUnit SourceText),
      files.readSource options.load path = .ok source →
        ∃ lines, Text.IsLines (files.lexFile options path).outText lines ∧
          lines.length = 1 + source.model.scan.lexemes.length) ∧
    ∀ (files files' : FileSystem) (source source' : SourceUnit SourceText),
      files.readSource options.load path = .ok source →
      files'.readSource options.load path = .ok source' →
        ((files.lexFile options path).outText = (files'.lexFile options path).outText ↔
          source.model.scan.lexemes.map (Lexeme.entry options.spans) =
            source'.model.scan.lexemes.map (Lexeme.entry options.spans)) := by
  constructor
  · intro files source hread
    refine ⟨_, FileSystem.isLines_lexFile hpath hread, ?_⟩
    rw [lexListing, List.length_cons, List.length_map, Nat.add_comm]
  · intro files files' source source' hread hread'
    rw [← lexListing_inj path]
    have hlines := FileSystem.isLines_lexFile hpath hread
    have hlines' := FileSystem.isLines_lexFile hpath hread'
    constructor
    · -- a text is lines in one way only
      intro htext
      rw [htext] at hlines
      exact hlines.unique hlines'
    · intro hsame
      rw [hlines.1, hlines'.1, hsame]

section Backslash

open LibraryTree

/-- A directory `w` with one source, a raw string with a newline in it. -/
def newlineRaw : FileSystem :=
  Place.fileSystem ⟨[(w, .directory [(x, .file [0x60, 0x0a, 0x60])])], []⟩

/-- The same with a backslash and the letter `n` in the raw string. -/
def backslashRaw : FileSystem :=
  Place.fileSystem ⟨[(w, .directory [(x, .file [0x60, 0x5c, 0x6e, 0x60])])], []⟩

/-- A newline in a text is listed in one line, and other than what stands for it there. -/
theorem listing_loses_nothing_newline :
    Text.OneLine (root.join x).display ∧
      (∃ lines, Text.IsLines (newlineRaw.lexFile .standard (root.join x)).outText lines ∧
        lines.length = 2) ∧
      (newlineRaw.lexFile .standard (root.join x)).outText ≠
        (backslashRaw.lexFile .standard (root.join x)).outText := by
  have hpath : Text.OneLine (root.join x).display := by decide +kernel
  have hnewline : newlineRaw.readSource .standard (root.join x) =
      .ok ⟨root.join x, xName, ⟨['\x60', '\n', '\x60']⟩⟩ := by cbv
  have hbackslash : backslashRaw.readSource .standard (root.join x) =
      .ok ⟨root.join x, xName, ⟨['\x60', '\\', 'n', '\x60']⟩⟩ := by cbv
  obtain ⟨hlines, hsame⟩ := listing_loses_nothing .standard (root.join x) hpath
  refine ⟨hpath, ?_, fun htext => ?_⟩
  · obtain ⟨lines, hof, hlength⟩ := hlines newlineRaw _ hnewline
    have hcount : (SourceText.scan ⟨['\x60', '\n', '\x60']⟩).lexemes.length = 1 := by
      decide +kernel
    exact ⟨lines, hof, hlength.trans (congrArg (1 + ·) hcount)⟩
  · have hentries := (hsame newlineRaw backslashRaw _ _ hnewline hbackslash).1 htext
    revert hentries
    decide +kernel

end Backslash

end Lexis
