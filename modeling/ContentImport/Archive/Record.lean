import ContentImport.Number.Integer
import ContentImport.Text.Bytes

/-!
# Records of an archive

The records of an archive begin with a mark and hold numbers, which are written with the lowest
byte first, names, and checksums of data.

* `Bytes.number` reads a number in a record.
* `recordAt?` finds a record at a position, and `candidates` the places where one may begin.
* `EntryName.decode` reads a name: in UTF-8 if its entry says so, and else in the code page of the
  first personal computers.
* `Checksum.ofBytes` is a cyclic redundancy check of 32 bits, whose polynomial is written with the
  lowest power first.
-/

namespace ContentImport

/-! ## Marks and numbers -/

/-- The number that bytes write. -/
def Bytes.toNat : Bytes → Nat
  | [] => 0
  | b :: r => b.toNat + 256 * Bytes.toNat r

/-- The number in a field of so many bytes at a place in a record. -/
def Bytes.number (record : Bytes) (place size : Nat) : Nat :=
  Bytes.toNat ((record.drop place).take size)

/-- The mark at the beginning of a record. -/
def recordMark (a b : Nat) : Bytes := [Bytes.char 'P', Bytes.char 'K', UInt8.ofNat a, UInt8.ofNat b]

/-- The bytes from a position on, if a record with a mark and at least so many bytes stands
there. -/
def recordAt? (bs : Bytes) (position : Nat) (mark : Bytes) (size : Nat) : Option Bytes :=
  let record := bs.drop position
  if mark.isPrefixOf record ∧ size ≤ record.length then some record else none

/-- The positions at which a mark stands, counted from the first argument on. -/
def positions (mark : Bytes) : Nat → Bytes → List Nat
  | _, [] => []
  | n, b :: r =>
    if mark.isPrefixOf (b :: r) then n :: positions mark (n + 1) r else positions mark (n + 1) r

/-- The positions of a mark from `first` up to but not including `last`, the place where it is
expected in front. -/
def candidates (mark bs : Bytes) (first last : Nat) : List Nat :=
  positions mark first ((bs.take last).drop first)

/-! ## Names -/

namespace EntryName

/-- The characters of the upper half of the code page. -/
def upperHalf : Array Char :=
  ("ÇüéâäàåçêëèïîìÄÅÉæÆôöòûùÿÖÜ¢£¥₧ƒ" ++ "áíóúñÑªº¿⌐¬½¼¡«»░▒▓│┤╡╢╖╕╣║╗╝╜╛┐" ++
    "└┴┬├─┼╞╟╚╔╩╦╠═╬╧╨╤╥╙╘╒╓╫╪┘┌█▄▌▐▀" ++ "αßΓπΣσµτΦΘΩδ∞φε∩≡±≥≤⌠⌡÷≈°∙·√ⁿ²■\u00a0").toList.toArray

/-- The character of a byte in the code page. -/
def char (b : UInt8) : Char :=
  if b < 128 then Char.ofNat b.toNat else upperHalf.getD (b.toNat - 128) ' '

/-- The text of a name. -/
def decode (isUtf8 : Bool) (raw : Bytes) : String :=
  if isUtf8 then Utf8.decodeLossy raw else String.ofList (raw.map char)

/-- Whether a name is that of a folder. -/
def isFolder (name : String) : Bool :=
  match name.toList.getLast? with
  | some c => c == '/' || c == '\\'
  | none => false

end EntryName

/-! ## Checksums -/

namespace Checksum

/-- The polynomial. -/
def polynomial : UInt32 := 0xEDB88320

/-- The remainder after so many bits. -/
def shift : Nat → UInt32 → UInt32
  | 0, r => r
  | n + 1, r => shift n (if r &&& 1 = 1 then (r >>> 1) ^^^ polynomial else r >>> 1)

/-- The remainder after a byte. -/
def byte (r : UInt32) (b : UInt8) : UInt32 := shift 8 (r ^^^ b.toUInt32)

/-- The checksum of bytes. -/
def ofBytes (bs : Bytes) : UInt32 := bs.foldl byte 0xFFFFFFFF ^^^ 0xFFFFFFFF

end Checksum

end ContentImport
