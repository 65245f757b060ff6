import Lexis.Text.Utf8

/-!
# Paths

A path is a sequence of bytes, cut into components by slashes. It need not be UTF-8, and is shown
with U+FFFD for what is not.

- `FileName`: what a directory may call an entry.
- `Path`: a path as it was given; `Path.join` adds an entry's name.
- `Path.components`: what a path says, without what means nothing; `Path.order` compares by it.
- `Path.steps`: what is to be followed, in order, to open a path.
- `Path.fileName?`, `Path.stem?`, `Path.extension?`: the last name and its two parts.
-/

namespace Lexis

/-- The byte that separates components. -/
def slash : UInt8 := 0x2f

/-- The byte of a full stop. -/
def fullStop : UInt8 := 0x2e

/-- Whether bytes may name an entry of a directory: at most 255 of them, none a slash or null, and
neither of the two names that every directory keeps for itself and its parent. -/
def isFileName (bytes : List UInt8) : Bool :=
  !bytes.isEmpty && bytes.length ≤ 255 && !bytes.contains slash && !bytes.contains 0
    && bytes != [fullStop] && bytes != [fullStop, fullStop]

/-- The name of an entry of a directory. -/
structure FileName where
  bytes : List UInt8
  valid : isFileName bytes = true
  deriving DecidableEq

namespace FileName

/-- The name that has these bytes, if they may be one. -/
def ofBytes? (bytes : List UInt8) : Option FileName :=
  if h : isFileName bytes = true then some ⟨bytes, h⟩ else none

/-- Names compare byte by byte. -/
def order (a b : FileName) : Ordering := List.compareLex compare a.bytes b.bytes

/-- No name is empty. -/
theorem length_pos (name : FileName) : 0 < name.bytes.length := by
  have h := name.valid
  unfold isFileName at h
  cases hb : name.bytes with
  | nil => simp [hb] at h
  | cons => simp

end FileName

/-- A path, as its bytes. -/
structure Path where
  bytes : List UInt8
  deriving DecidableEq, Repr

/-- What stands between the slashes of a path. -/
inductive Component where
  /-- The slash that an absolute path begins with. -/
  | root
  /-- A single full stop. -/
  | here
  /-- Two full stops. -/
  | parent
  | name (bytes : List UInt8)
  deriving DecidableEq, Repr

namespace Component

/-- What the bytes between two slashes say. No bytes say as much as a full stop. -/
def ofBytes (bytes : List UInt8) : Component :=
  if bytes = [] ∨ bytes = [fullStop] then here
  else if bytes = [fullStop, fullStop] then parent
  else name bytes

/-- Where a component of a kind comes among those of other kinds. -/
def rank : Component → Nat
  | root => 0
  | here => 1
  | parent => 2
  | name _ => 3

/-- Components compare by kind, and names byte by byte. -/
def order : Component → Component → Ordering
  | name a, name b => List.compareLex compare a b
  | a, b => compare a.rank b.rank

end Component

namespace Path

/-- The path that a text writes. -/
def ofText (text : List Char) : Path := ⟨Text.Utf8.encode text⟩

/-- The bytes between the slashes of a path, the first before the first slash. -/
def segments : List UInt8 → List (List UInt8)
  | [] => [[]]
  | b :: rest =>
    if b = slash then [] :: segments rest
    else
      match segments rest with
      | [] => [[b]]
      | first :: more => (b :: first) :: more

/-- Whether a path begins with a slash. -/
def isAbsolute (path : Path) : Bool := path.bytes.head? == some slash

/-- The steps that lead to what a path names. A slash at the end is a step too: it leads on only
from a directory. -/
def steps (path : Path) : List Component :=
  let segments := (segments path.bytes).map Component.ofBytes
  if path.isAbsolute then .root :: segments else segments

/-- The components of a path. A full stop says nothing, except where a path that is not absolute
begins with one. -/
def components (path : Path) : List Component :=
  match (segments path.bytes).map Component.ofBytes with
  | [] => []
  | first :: more =>
    let more := more.filter (· ≠ .here)
    if path.isAbsolute then .root :: more
    else if path.bytes.isEmpty then more
    else first :: more

/-- Paths compare component by component, and one that goes on comes later. -/
def order (a b : Path) : Ordering := List.compareLex Component.order a.components b.components

/-- The name that a path ends with, if it ends with one. -/
def fileName? (path : Path) : Option (List UInt8) :=
  match path.components.getLast? with
  | some (.name bytes) => some bytes
  | _ => none

/-- A name before and after its last full stop. There is no second part without a full stop, or
where the only one begins the name. -/
def cutExtension (name : List UInt8) : List UInt8 × Option (List UInt8) :=
  let extension := (name.reverse.takeWhile (· ≠ fullStop)).reverse
  let stem := name.take (name.length - extension.length - 1)
  if extension.length = name.length ∨ stem.isEmpty then (name, none) else (stem, some extension)

/-- The name that a path ends with, without its extension. -/
def stem? (path : Path) : Option (List UInt8) :=
  path.fileName?.map fun name => (cutExtension name).1

/-- What follows the last full stop of the name that a path ends with. -/
def extension? (path : Path) : Option (List UInt8) :=
  path.fileName?.bind fun name => (cutExtension name).2

/-- The path of an entry of a directory. A slash is added unless the directory's path ends with
one. -/
def join (path : Path) (name : FileName) : Path :=
  if path.bytes.isEmpty || path.bytes.getLast? == some slash then ⟨path.bytes ++ name.bytes⟩
  else ⟨path.bytes ++ slash :: name.bytes⟩

/-- The path of an entry is longer than its directory's. -/
theorem length_lt_join (path : Path) (name : FileName) :
    path.bytes.length < (path.join name).bytes.length := by
  have h := name.length_pos
  unfold join
  split <;> simp only [List.length_append, List.length_cons] <;> omega

/-- A path as it is shown. -/
def display (path : Path) : String := String.ofList (Text.Utf8.decodeLossy path.bytes)

end Path

end Lexis
