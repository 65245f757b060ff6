import Lexis.Piece.Basic

/-!
# Lexemes of a source text

Scanning reads a source text piece by piece, drops the gaps and says of every token where it
stands. It ends at the end of the text or with the first fault.

- `Lexeme`: a token, the text it covers, and where.
- `Scanner`: a scan that goes on lexeme by lexeme, also past a fault.
- `Scanner.nextLexeme`: the next lexeme or error; `Scanner.next` is the same until an error, and
  nothing after it.
- `SourceText.scan`: the lexemes of a text up to the first error, and that error.
-/

namespace Lexis

/-- A token, the text it covers, and where that text stands. -/
structure Lexeme where
  kind : Kind
  text : List Char
  span : Span
  deriving DecidableEq, Repr

/-- What a scanner comes upon next. -/
inductive Scanner.Event where
  /-- The end of the text. -/
  | finished
  | lexeme (lexeme : Lexeme)
  | error (error : ScanError)
  deriving DecidableEq, Repr

/-- The piece ahead of a cursor. -/
def Cursor.piece? (cursor : Cursor) : Option Piece :=
  Piece.read? cursor.rest cursor.source.behind

/-- Passing over a piece leaves less ahead. -/
theorem Cursor.length_rest_skip_lt {cursor : Cursor} {piece : Piece}
    (h : cursor.piece? = some piece) :
    (cursor.skip piece.length).rest.length < cursor.rest.length := by
  have hpos := Piece.length_pos_of_read? h
  rw [Cursor.rest_skip, List.length_drop]
  cases hrest : cursor.rest with
  | nil => simp [piece?, hrest, Piece.read?] at h
  | cons c rest =>
    rw [List.length_cons]
    omega

/-- The next token or fault ahead of a cursor, and the cursor after it. Gaps are passed over. A
fault leaves the cursor where it was found, which is beyond its place or at it. -/
def Cursor.nextEvent (cursor : Cursor) : Scanner.Event × Cursor :=
  match _h : cursor.piece? with
  | none => (.finished, cursor)
  | some (.gap text) => (cursor.skip text.length).nextEvent
  | some (.token kind text) =>
    let after := cursor.skip text.length
    (.lexeme ⟨kind, text, cursor.location, after.location⟩, after)
  | some (.fault cause place taken) =>
    (.error ⟨cause, (cursor.skip place).location⟩, cursor.skip taken)
  termination_by cursor.rest.length
  decreasing_by exact Cursor.length_rest_skip_lt _h

/-- A scan under way: the cursor, and whether `next` has come upon an error. -/
structure Scanner where
  cursor : Cursor
  failed : Bool
  deriving DecidableEq, Repr

/-- A scan that has not begun. -/
def SourceText.scanner (source : SourceText) : Scanner := ⟨source.cursor, false⟩

namespace Scanner

/-- The next lexeme or error, whatever came before. -/
def nextLexeme (scanner : Scanner) : Event × Scanner :=
  let (event, cursor) := scanner.cursor.nextEvent
  (event, { scanner with cursor })

/-- The next lexeme or error, and nothing more after an error. -/
def next (scanner : Scanner) : Event × Scanner :=
  if scanner.failed then (.finished, scanner)
  else
    match scanner.nextLexeme with
    | (.error error, scanner) => (.error error, { scanner with failed := true })
    | (event, scanner) => (event, scanner)

end Scanner

/-- The lexemes of a text up to the first error, and that error. -/
structure Scan where
  lexemes : List Lexeme
  error : Option ScanError
  deriving DecidableEq, Repr

namespace Scan

/-- Whether the scan met no error. -/
def isOk (scan : Scan) : Bool := scan.error.isNone

/-- The lexemes of a scan without an error. -/
def toExcept (scan : Scan) : Except ScanError (List Lexeme) :=
  match scan.error with
  | none => .ok scan.lexemes
  | some error => .error error

end Scan

/-- The lexemes ahead of a cursor, up to the first error. -/
def Cursor.scan (cursor : Cursor) : Scan :=
  match _h : cursor.piece? with
  | none => ⟨[], none⟩
  | some (.gap text) => (cursor.skip text.length).scan
  | some (.token kind text) =>
    let after := cursor.skip text.length
    let scan := after.scan
    ⟨⟨kind, text, cursor.location, after.location⟩ :: scan.lexemes, scan.error⟩
  | some (.fault cause place _) => ⟨[], some ⟨cause, (cursor.skip place).location⟩⟩
  termination_by cursor.rest.length
  decreasing_by all_goals exact Cursor.length_rest_skip_lt _h

/-- The lexemes of a text up to the first error, and that error. -/
def SourceText.scan (source : SourceText) : Scan := source.cursor.scan

end Lexis
