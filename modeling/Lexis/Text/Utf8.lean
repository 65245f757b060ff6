/-!
# UTF-8

Every codepoint is written in one to four bytes: a leading byte that tells how many follow, then
continuation bytes. Overlong forms, surrogates and numbers above `10ffff` are not written.

- `encodeChar`, `encode`: the bytes of a codepoint and of a text.
- `decodeHead`: the codepoint that a byte sequence begins with, or `none` for a malformed beginning,
  and the bytes after it. A malformed beginning takes in every byte that some codepoint could go on
  with, and at least one.
- `decode?`: the text of a byte sequence without a malformed part.
- `decodeLossy`: the text of any byte sequence, with U+FFFD for each malformed part.
-/

namespace Lexis.Text.Utf8

/-- The bytes of a codepoint. -/
def encodeChar (c : Char) : List UInt8 :=
  let n := c.toNat
  let tail (k : Nat) : UInt8 := UInt8.ofNat (0x80 + n / k % 0x40)
  if n < 0x80 then [UInt8.ofNat n]
  else if n < 0x800 then [UInt8.ofNat (0xc0 + n / 0x40), tail 1]
  else if n < 0x10000 then [UInt8.ofNat (0xe0 + n / 0x1000), tail 0x40, tail 1]
  else [UInt8.ofNat (0xf0 + n / 0x40000), tail 0x1000, tail 0x40, tail 1]

/-- The bytes of a text. -/
def encode (text : List Char) : List UInt8 := text.flatMap encodeChar

/-- How a leading byte goes on: the number it begins, how many continuation bytes follow, and the
least and greatest byte that may come first among them. -/
structure Lead where
  value : Nat
  tails : Nat
  low : Nat
  high : Nat
  deriving DecidableEq, Repr

/-- What a leading byte says, and `none` for a byte that leads nothing. The bounds on the byte after
it rule out overlong forms, surrogates and numbers above `10ffff`. -/
def lead? (b : Nat) : Option Lead :=
  if b < 0x80 then some ⟨b, 0, 0x80, 0xbf⟩
  else if b < 0xc2 then none
  else if b < 0xe0 then some ⟨b - 0xc0, 1, 0x80, 0xbf⟩
  else if b = 0xe0 then some ⟨0, 2, 0xa0, 0xbf⟩
  else if b = 0xed then some ⟨0xd, 2, 0x80, 0x9f⟩
  else if b < 0xf0 then some ⟨b - 0xe0, 2, 0x80, 0xbf⟩
  else if b = 0xf0 then some ⟨0, 3, 0x90, 0xbf⟩
  else if b < 0xf4 then some ⟨b - 0xf0, 3, 0x80, 0xbf⟩
  else if b = 0xf4 then some ⟨4, 3, 0x80, 0x8f⟩
  else none

/-- Reads `tails` continuation bytes, the first of them between `low` and `high`, into `value`. -/
def decodeTails (value low high : Nat) : Nat → List UInt8 → Option Nat × List UInt8
  | 0, bytes => (some value, bytes)
  | _ + 1, [] => (none, [])
  | tails + 1, b :: rest =>
    if low ≤ b.toNat ∧ b.toNat ≤ high then
      decodeTails (value * 0x40 + (b.toNat - 0x80)) 0x80 0xbf tails rest
    else (none, b :: rest)

/-- The codepoint that begins with byte `b` and goes on with `rest`, and the bytes after it. -/
def decodeHead (b : UInt8) (rest : List UInt8) : Option Char × List UInt8 :=
  match lead? b.toNat with
  | none => (none, rest)
  | some lead =>
    let (value, after) := decodeTails lead.value lead.low lead.high lead.tails rest
    (value.map Char.ofNat, after)

theorem length_decodeTails_le (value low high tails : Nat) (bytes : List UInt8) :
    (decodeTails value low high tails bytes).2.length ≤ bytes.length := by
  induction tails generalizing value low high bytes with
  | zero => simp [decodeTails]
  | succ tails ih =>
    cases bytes with
    | nil => simp [decodeTails]
    | cons b rest =>
      simp only [decodeTails]
      split
      · exact Nat.le_succ_of_le (ih ..)
      · simp

/-- Nothing is read twice: what follows a codepoint lies in what follows its first byte. -/
theorem length_decodeHead_le (b : UInt8) (rest : List UInt8) :
    (decodeHead b rest).2.length ≤ rest.length := by
  unfold decodeHead
  split
  · exact Nat.le_refl _
  · exact length_decodeTails_le ..

/-- The codepoints of a byte sequence, with `none` for each malformed part. -/
def decodeParts : List UInt8 → List (Option Char)
  | [] => []
  | b :: rest => (decodeHead b rest).1 :: decodeParts (decodeHead b rest).2
  termination_by bytes => bytes.length
  decreasing_by exact Nat.lt_succ_of_le (length_decodeHead_le b rest)

/-- The text of a byte sequence, if no part of it is malformed. -/
def decode? (bytes : List UInt8) : Option (List Char) :=
  (decodeParts bytes).mapM id

/-- The text of a byte sequence, with the replacement codepoint for each malformed part. -/
def decodeLossy (bytes : List UInt8) : List Char :=
  (decodeParts bytes).map (·.getD '\ufffd')

end Lexis.Text.Utf8
