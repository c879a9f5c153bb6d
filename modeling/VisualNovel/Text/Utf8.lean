/-
  Text from bytes in UTF-8. Bytes are read one at a time; the state is the character under way,
  with the number of bytes it still needs and the range of the next one. A sequence that cannot
  be completed is one broken character, up to the byte that does not fit. Reading strictly, a
  broken character spoils the text; reading kindly, it becomes U+FFFD.
-/

namespace VisualNovel.Text

/-- A character under way: the bytes it needs after the next one, the range of the next one and
    the value of the bytes so far. -/
structure Unfinished where
  needed : Nat
  low : Nat
  high : Nat
  value : Nat
  deriving Repr, DecidableEq

/-- What the first byte of a character says: it is the character, it needs more bytes, or it
    cannot stand there. -/
inductive FirstByte where
  | whole (c : Char)
  | more (u : Unfinished)
  | broken
  deriving Repr, DecidableEq

/-- Reads the first byte of a character. The ranges leave out what a shorter form could say,
    the surrogates, and all beyond the last character. -/
def firstByte (b : Nat) : FirstByte :=
  if b < 0x80 then .whole (Char.ofNat b)
  else if b < 0xC2 then .broken
  else if b < 0xE0 then .more ⟨0, 0x80, 0xBF, b - 0xC0⟩
  else if b = 0xE0 then .more ⟨1, 0xA0, 0xBF, 0⟩
  else if b = 0xED then .more ⟨1, 0x80, 0x9F, 0xD⟩
  else if b < 0xF0 then .more ⟨1, 0x80, 0xBF, b - 0xE0⟩
  else if b = 0xF0 then .more ⟨2, 0x90, 0xBF, 0⟩
  else if b < 0xF4 then .more ⟨2, 0x80, 0xBF, b - 0xF0⟩
  else if b = 0xF4 then .more ⟨2, 0x80, 0x8F, 4⟩
  else .broken

/-- The character with a further byte, if the byte fits: whole or still under way. -/
def Unfinished.next? (u : Unfinished) (b : Nat) : Option FirstByte :=
  if u.low ≤ b ∧ b ≤ u.high then
    let value := u.value * 64 + (b - 0x80)
    match u.needed with
    | 0 => some (.whole (Char.ofNat value))
    | n + 1 => some (.more ⟨n, 0x80, 0xBF, value⟩)
  else none

/-- The characters of bytes, with nothing in the place of a broken one. -/
def decodeFrom : Option Unfinished → List UInt8 → List (Option Char)
  | none, [] => []
  | some _, [] => [none]
  | pending, b :: rest =>
    let start (b : Nat) : List (Option Char) :=
      match firstByte b with
      | .whole c => some c :: decodeFrom none rest
      | .more u => decodeFrom (some u) rest
      | .broken => none :: decodeFrom none rest
    match pending with
    | none => start b.toNat
    | some u =>
      match u.next? b.toNat with
      | some (.whole c) => some c :: decodeFrom none rest
      | some (.more u) => decodeFrom (some u) rest
      | _ => none :: start b.toNat

/-- The text of bytes that have no broken character. -/
def decodeUtf8? (bytes : List UInt8) : Option String :=
  ((decodeFrom none bytes).mapM id).map String.ofList

/-- The text of bytes, with U+FFFD for a broken character. -/
def decodeUtf8Kindly (bytes : List UInt8) : String :=
  String.ofList ((decodeFrom none bytes).map fun c => c.getD (Char.ofNat 0xFFFD))

end VisualNovel.Text
