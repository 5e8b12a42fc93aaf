import ContentImport.Text.Basic

/-!
# UTF-8

Texts as bytes and back.

* `Utf8.encode` writes a text.
* `Utf8.scan` reads bytes into characters and faults: each longest beginning of a character
  that its next byte does not continue is one fault.
* `Utf8.decode?` accepts bytes without faults; `Utf8.decodeLossy` writes the replacement
  character for each fault.
-/

namespace ContentImport

/-- A sequence of bytes. -/
abbrev Bytes := List UInt8

namespace Utf8

/-- The bytes of a text. -/
def encode (s : String) : Bytes := s.toList.flatMap String.utf8EncodeChar

/-- A character of which some bytes are read: how many are owed after the next one, the range
of the next one, and the bits read. -/
structure Opened where
  owed : Nat
  low : UInt8
  high : UInt8
  bits : Nat

/-- What the first byte of a character says. -/
inductive Start
  | char (c : Char)
  | opened (o : Opened)
  | fault

/-- The reading of a first byte. -/
def start (b : UInt8) : Start :=
  if b ≤ 0x7F then .char (Char.ofNat b.toNat)
  else if b < 0xC2 then .fault
  else if b ≤ 0xDF then .opened ⟨0, 0x80, 0xBF, b.toNat % 32⟩
  else if b ≤ 0xEF then
    .opened ⟨1, if b = 0xE0 then 0xA0 else 0x80, if b = 0xED then 0x9F else 0xBF, b.toNat % 16⟩
  else if b ≤ 0xF4 then
    .opened ⟨2, if b = 0xF0 then 0x90 else 0x80, if b = 0xF4 then 0x8F else 0xBF, b.toNat % 8⟩
  else .fault

/-- The characters of a byte sequence, with `none` for every fault, when `o` is the character
that is being read. -/
def scan : Option Opened → Bytes → List (Option Char)
  | none, [] => []
  | some _, [] => [none]
  | none, b :: r =>
    match start b with
    | .char c => some c :: scan none r
    | .opened o => scan (some o) r
    | .fault => none :: scan none r
  | some o, b :: r =>
    if o.low ≤ b && b ≤ o.high then
      let bits := o.bits * 64 + b.toNat % 64
      match o.owed with
      | 0 => some (Char.ofNat bits) :: scan none r
      | n + 1 => scan (some ⟨n, 0x80, 0xBF, bits⟩) r
    else
      match start b with
      | .char c => none :: some c :: scan none r
      | .opened o => none :: scan (some o) r
      | .fault => none :: none :: scan none r

/-- The text of a byte sequence without faults. -/
def decode? (bytes : Bytes) : Option String :=
  ((scan none bytes).mapM id).map String.ofList

/-- The text of a byte sequence, with U+FFFD for every fault. -/
def decodeLossy (bytes : Bytes) : String :=
  String.ofList ((scan none bytes).map (·.getD (Char.ofNat 0xFFFD)))

end Utf8

end ContentImport
