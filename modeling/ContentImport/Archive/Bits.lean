import ContentImport.Text.Utf8

/-!
# Bits of compressed data

Compressed data is a sequence of bits: those of a byte come with the lowest one first.

* `Bits.Reader` takes bits from the front; it stops at the end of the data or where they are
  corrupt.
-/

namespace ContentImport

/-- The bits that are left: those of a byte that is begun, and whole bytes. -/
structure Bits where
  /-- The bits that are left of the byte, as a number. -/
  begun : Nat
  /-- How many they are. -/
  count : Nat
  rest : Bytes

namespace Bits

/-- The bits of bytes. -/
def ofBytes (bs : Bytes) : Bits := ⟨0, 0, bs⟩

/-- Why no more data comes. -/
inductive Stop
  | atEnd
  | corrupt
  deriving DecidableEq

/-- Takes something from the front of bits. -/
abbrev Reader (α : Type) := StateT Bits (Except Stop) α

/-- Takes a bit. -/
def bit : Reader Nat := fun bs =>
  match bs.count, bs.rest with
  | n + 1, rest => .ok (bs.begun % 2, ⟨bs.begun / 2, n, rest⟩)
  | 0, b :: rest => .ok (b.toNat % 2, ⟨b.toNat / 2, 7, rest⟩)
  | 0, [] => .error .atEnd

/-- Takes a number of so many bits, the lowest one first. -/
def number : Nat → Reader Nat
  | 0 => pure 0
  | n + 1 => do
    let low ← bit
    return low + 2 * (← number n)

/-- Drops what is left of a byte that is begun. -/
def align : Reader Unit := modify fun bs => ⟨0, 0, bs.rest⟩

/-- No data of this kind is valid. -/
def corrupt {α : Type} : Reader α := throw .corrupt

end Bits

end ContentImport
