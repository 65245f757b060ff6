import Lexis.Text.Utf8

/-!
# Keywords

A keyword is a word that the language keeps for itself. As in the language, where a keyword
becomes an identifier by a trailing underscore, the constructors carry one.

- `Keyword`: the keywords, in the order that token kinds compare by.
- `Keyword.text`, `Keyword.table`: how a keyword is written, and all keywords with their texts.
- `Keyword.ofText?`: the keyword written so, if there is one, looked up by its length.
- `Keyword.ofLetters?`: the keyword of a run of letters, which is put into bytes first.
-/

namespace Lexis

/-- The keywords of the language. -/
inductive Keyword where
  | private_ | protected_ | public_ | import_
  | const_ | var_ | func_ | proc_ | entrypoint_ | free_
  | interface_ | struct_ | class_ | enum_ | union_ | variant_
  | if_ | else_ | for_ | while_ | do_ | switch_ | case_ | default_ | fallthrough_ | break_
  | continue_ | return_
  | mutable_ | shared_ | volatile_ | alignas_ | threadlocal_
  deriving DecidableEq, Repr, Ord

namespace Keyword

/-- Every keyword, in order. -/
def all : List Keyword :=
  [private_, protected_, public_, import_,
    const_, var_, func_, proc_, entrypoint_, free_,
    interface_, struct_, class_, enum_, union_, variant_,
    if_, else_, for_, while_, do_, switch_, case_, default_, fallthrough_, break_,
    continue_, return_,
    mutable_, shared_, volatile_, alignas_, threadlocal_]

/-- How a keyword is written. -/
def text : Keyword → String
  | private_ => "private"
  | protected_ => "protected"
  | public_ => "public"
  | import_ => "import"
  | const_ => "const"
  | var_ => "var"
  | func_ => "func"
  | proc_ => "proc"
  | entrypoint_ => "entrypoint"
  | free_ => "free"
  | interface_ => "interface"
  | struct_ => "struct"
  | class_ => "class"
  | enum_ => "enum"
  | union_ => "union"
  | variant_ => "variant"
  | if_ => "if"
  | else_ => "else"
  | for_ => "for"
  | while_ => "while"
  | do_ => "do"
  | switch_ => "switch"
  | case_ => "case"
  | default_ => "default"
  | fallthrough_ => "fallthrough"
  | break_ => "break"
  | continue_ => "continue"
  | return_ => "return"
  | mutable_ => "mutable"
  | shared_ => "shared"
  | volatile_ => "volatile"
  | alignas_ => "alignas"
  | threadlocal_ => "threadlocal"

/-- A keyword's name is its text in capitals. -/
def name (keyword : Keyword) : String := keyword.text.map Char.toUpper

/-- Every keyword behind its text, in order. -/
def table : List (String × Keyword) := all.map fun keyword => (keyword.text, keyword)

/-- How many letters the longest keyword has. -/
def maxLength : Nat := 11

/-- The keywords that have so many letters, behind their texts. -/
def ofLength : Nat → List (String × Keyword)
  | 2 => [("do", do_), ("if", if_)]
  | 3 => [("for", for_), ("var", var_)]
  | 4 => [("case", case_), ("else", else_), ("enum", enum_), ("free", free_), ("func", func_),
      ("proc", proc_)]
  | 5 => [("break", break_), ("class", class_), ("const", const_), ("union", union_),
      ("while", while_)]
  | 6 => [("import", import_), ("public", public_), ("return", return_), ("shared", shared_),
      ("struct", struct_), ("switch", switch_)]
  | 7 => [("alignas", alignas_), ("default", default_), ("mutable", mutable_),
      ("private", private_), ("variant", variant_)]
  | 8 => [("continue", continue_), ("volatile", volatile_)]
  | 9 => [("interface", interface_), ("protected", protected_)]
  | 10 => [("entrypoint", entrypoint_)]
  | 11 => [("fallthrough", fallthrough_), ("threadlocal", threadlocal_)]
  | _ => []

/-- A byte that writes a lower-case ASCII letter. -/
def isLowerByte (b : UInt8) : Bool := 0x61 ≤ b && b ≤ 0x7a

/-- The keyword that is written `s`. A text that is too short or too long in bytes, or does not
begin with a lower-case letter, is none; any other is compared with the keywords of its length. -/
def ofText? (s : List Char) : Option Keyword :=
  let bytes := Text.Utf8.encode s
  if 2 ≤ bytes.length ∧ bytes.length ≤ maxLength ∧ bytes.head?.any isLowerByte = true then
    ((ofLength bytes.length).find? fun entry => entry.1.toList == s).map Prod.snd
  else none

/-- A row of bytes, with the numbers of codepoints written over its first ones, as far as it goes.
A codepoint whose number is no byte cannot be written. -/
def overwrite : List UInt8 → List Char → Option (List UInt8)
  | _ :: row, c :: rest =>
    if c.toNat < 0x100 then (overwrite row rest).map (UInt8.ofNat c.toNat :: ·) else none
  | row, _ => some row

/-- The keyword that a run of letters is. The letters are written into a row of bytes that has room
for the longest keyword, and the text of these bytes is looked up. -/
def ofLetters? (letters : List Char) : Option Keyword :=
  if maxLength < letters.length then none
  else
    (overwrite (List.replicate maxLength 0) letters).bind fun row =>
      (Text.Utf8.decode? (row.take letters.length)).bind ofText?

/-- Whether `s` is how some keyword is written. -/
def isKeyword (s : List Char) : Bool := (ofText? s).isSome

end Keyword

end Lexis
