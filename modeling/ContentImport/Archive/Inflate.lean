import ContentImport.Archive.Huffman

/-!
# Compressed data

Data compressed by the method "deflate" is a sequence of blocks. A block holds bytes as they are,
or symbols of two codes that stand for bytes and for copies of bytes that came before.

* `Inflate.decode` gives the data up to where they end or turn out to be corrupt.
* `Inflate.run` gives those of them that are delivered: data come in portions, and a fault spoils
  the portion in which it stands.
-/

namespace ContentImport.Inflate

open Bits (Reader Stop)

/-! ## Codes -/

/-- The least value and the number of extra bits for symbols that come in groups: every group has
the same number of symbols and one extra bit more than the one before. -/
def steps (start : Nat) : List Nat → List (Nat × Nat)
  | [] => []
  | extra :: r => (start, extra) :: steps (start + 2 ^ extra) r

/-- The extra bits of the symbols for lengths of copies but the last. -/
def lengthBits : List Nat :=
  [0, 0, 0, 0, 0, 0, 0, 0, 1, 1, 1, 1, 2, 2, 2, 2, 3, 3, 3, 3, 4, 4, 4, 4, 5, 5, 5, 5]

/-- The lengths of copies. The last symbol stands for the greatest length alone. -/
def lengths : Array (Nat × Nat) := (steps 3 lengthBits ++ [(258, 0)]).toArray

/-- The extra bits of the symbols for distances of copies. -/
def distanceBits : List Nat :=
  [ 0, 0, 0, 0, 1, 1, 2, 2, 3, 3, 4, 4, 5, 5, 6, 6, 7, 7, 8, 8, 9, 9, 10, 10, 11, 11, 12, 12,
    13, 13 ]

/-- The distances of copies. -/
def distances : Array (Nat × Nat) := (steps 1 distanceBits).toArray

/-- The codes of a block: one for bytes and lengths of copies, one for distances. -/
structure Codes where
  literals : HuffmanCode
  distances : HuffmanCode

/-- The code of lengths, for the items of a block. -/
def itemCode (lengths : List Nat) : Reader HuffmanCode :=
  let c := HuffmanCode.ofLengths lengths
  if c.IsComplete ∨ c.IsSmall then pure c else Bits.corrupt

/-- The codes of lengths. -/
def codes (literals distances : List Nat) : Reader Codes := do
  return ⟨← itemCode literals, ← itemCode distances⟩

/-- The codes of blocks that do not describe their own. -/
def fixedCodes : Reader Codes :=
  codes
    (List.replicate 144 8 ++ List.replicate 112 9 ++ List.replicate 24 7 ++ List.replicate 8 8)
    (List.replicate 32 5)

/-- The order in which the lengths of the code for lengths are written. -/
def lengthOrder : List Nat := [16, 17, 18, 0, 8, 7, 9, 6, 10, 5, 11, 4, 12, 3, 13, 2, 14, 1, 15]

/-- Reads so many numbers of three bits. -/
def triples : Nat → Reader (List Nat)
  | 0 => pure []
  | n + 1 => do
    let x ← Bits.number 3
    return x :: (← triples n)

/-- Reads code lengths up to a total, with the last one first; three symbols stand for
repetitions. -/
def codeLengths (code : HuffmanCode) (total : Nat) : Nat → List Nat → Reader (List Nat)
  | 0, _ => Bits.corrupt
  | fuel + 1, read =>
    if total < read.length then Bits.corrupt
    else if read.length = total then pure read
    else do
      match ← code.symbol with
      | 16 =>
        match read with
        | [] => Bits.corrupt
        | x :: _ => codeLengths code total fuel (List.replicate (3 + (← Bits.number 2)) x ++ read)
      | 17 => codeLengths code total fuel (List.replicate (3 + (← Bits.number 3)) 0 ++ read)
      | 18 => codeLengths code total fuel (List.replicate (11 + (← Bits.number 7)) 0 ++ read)
      | x => codeLengths code total fuel (x :: read)

/-- Reads the codes that a block describes. -/
def ownCodes : Reader Codes := do
  let literals := 257 + (← Bits.number 5)
  let distances := 1 + (← Bits.number 5)
  let given := 4 + (← Bits.number 4)
  if 286 < literals ∨ 30 < distances then Bits.corrupt
  let rows := lengthOrder.zip (← triples given)
  let lengths := (List.range 19).map fun symbol =>
    ((rows.find? fun row => row.1 == symbol).map (·.2)).getD 0
  let code := HuffmanCode.ofLengths lengths
  if ¬code.IsComplete then Bits.corrupt
  let total := literals + distances
  let all := (← codeLengths code total (total + 1) []).reverse
  codes (all.take literals) (all.drop literals)

/-! ## Blocks -/

/-- Data that are uncompressed, and how the reading went on. -/
abbrev Output (α : Type) := Array UInt8 × Except Stop (α × Bits)

/-- Reads the extra bits of a symbol. -/
def withExtra (table : Array (Nat × Nat)) (symbol : Nat) : Reader Nat :=
  match table[symbol]? with
  | some (start, extra) => do return start + (← Bits.number extra)
  | none => Bits.corrupt

/-- What a block says next. -/
inductive Item
  | byte (b : UInt8)
  | copy (length distance : Nat)
  | done

/-- Reads an item. -/
def item (c : Codes) : Reader Item := do
  let symbol ← c.literals.symbol
  if symbol < 256 then return .byte (UInt8.ofNat symbol)
  else if symbol = 256 then return .done
  else
    let length ← withExtra lengths (symbol - 257)
    let distance ← withExtra distances (← c.distances.symbol)
    return .copy length distance

/-- The byte at a distance from the end of data. Zeros stand before their beginning. -/
def behind (distance : Nat) (out : Array UInt8) : UInt8 :=
  if distance ≤ out.size then out.getD (out.size - distance) 0 else 0

/-- The data followed by a copy, byte for byte, of what stands at a distance from the end. -/
def copy (distance : Nat) : Nat → Array UInt8 → Array UInt8
  | 0, out => out
  | n + 1, out => copy distance n (out.push (behind distance out))

/-- Reads the items of a block. -/
def items (c : Codes) : Nat → Array UInt8 → Bits → Output Unit
  | 0, out, _ => (out, .error .corrupt)
  | fuel + 1, out, bs =>
    match (item c).run bs with
    | .error e => (out, .error e)
    | .ok (.done, bs) => (out, .ok ((), bs))
    | .ok (.byte b, bs) => items c fuel (out.push b) bs
    | .ok (.copy length distance, bs) => items c fuel (copy distance length out) bs

/-- Reads the length of a block of bytes, which is written twice. -/
def plainLength : Reader Nat := do
  Bits.align
  let length ← Bits.number 16
  let inverse ← Bits.number 16
  if length + inverse = 2 ^ 16 - 1 then return length else Bits.corrupt

/-- Reads a block of bytes. -/
def plain (out : Array UInt8) (bs : Bits) : Output Unit :=
  match plainLength.run bs with
  | .error e => (out, .error e)
  | .ok (length, bs) =>
    let out := out ++ (bs.rest.take length).toArray
    if bs.rest.length < length then (out, .error .atEnd)
    else (out, .ok ((), ⟨0, 0, bs.rest.drop length⟩))

/-- Reads a block of items with codes. -/
def coded (fuel : Nat) (codes : Reader Codes) (out : Array UInt8) (bs : Bits) : Output Unit :=
  match codes.run bs with
  | .error e => (out, .error e)
  | .ok (c, bs) => items c fuel out bs

/-- Reads whether a block is the last one, and its kind. -/
def header : Reader (Bool × Nat) := do
  let last ← Bits.bit
  return (last == 1, ← Bits.number 2)

/-- Reads a block; returns whether it is the last one. -/
def block (fuel : Nat) (out : Array UInt8) (bs : Bits) : Output Bool :=
  match header.run bs with
  | .error e => (out, .error e)
  | .ok ((last, kind), bs) =>
    let (out, result) := match kind with
      | 0 => plain out bs
      | 1 => coded fuel fixedCodes out bs
      | 2 => coded fuel ownCodes out bs
      | _ => (out, .error .corrupt)
    (out, result.map fun p => (last, p.2))

/-- Reads blocks; returns the data, and why they are not complete if they are not. -/
def blocks : Nat → Array UInt8 → Bits → Array UInt8 × Option Stop
  | 0, out, _ => (out, some .corrupt)
  | fuel + 1, out, bs =>
    match block fuel out bs with
    | (out, .error e) => (out, some e)
    | (out, .ok (true, _)) => (out, none)
    | (out, .ok (false, bs)) => blocks fuel out bs

/-- The data of compressed bytes up to their end or the first fault, and why they are not complete
if they are not. An item takes at least one bit. What follows the last block does not matter. -/
def decode (bs : Bytes) : Array UInt8 × Option Stop :=
  blocks (8 * bs.length + 1) #[] (Bits.ofBytes bs)

/-! ## Portions -/

/-- How many compressed bytes are taken in at a time. -/
def intake : Nat := 2 ^ 13

/-- How far back a copy can reach. -/
def window : Nat := 2 ^ 15

/-- How many bytes of data are asked for at a time. -/
def request : Nat := 2 ^ 11

/-- Where a portion of data ends. -/
structure PortionEnd where
  position : Nat
  /-- Whether all compressed bytes that were taken in are used up. -/
  isDry : Bool

/-- The ends of portions where the compressed bytes that were taken in are used up before any
fault shows. -/
def dryEnds (bs : Bytes) : List PortionEnd :=
  let parts := (List.range (bs.length / intake)).map fun i => decode (bs.take ((i + 1) * intake))
  (parts.takeWhile fun p => p.2 == some .atEnd).map fun p => ⟨p.1.size, true⟩

/-- The ends of portions where the window is full and more data follow, in so many bytes. -/
def fullEnds (size : Nat) : List PortionEnd :=
  (List.range ((size - 1) / window)).map fun i => ⟨(i + 1) * window, false⟩

/-- The number of bytes that are delivered before a fault at the end of so many bytes of data. When
the window is full before a request is met, the next portion belongs to the same request. -/
def delivered (bs : Bytes) (size : Nat) : Nat :=
  let ends := (dryEnds bs ++ fullEnds size).mergeSort fun x y => x.position ≤ y.position
  ends.foldl
    (fun n e => if e.isDry || decide (n + request ≤ e.position) then e.position else n) 0

/-- The data of compressed bytes that are delivered, and whether a fault follows them. Data that are
cut off are delivered as far as they go. -/
def run (bs : Bytes) : Bytes × Bool :=
  match decode bs with
  | (out, none) => (out.toList, false)
  | (out, some .atEnd) => (out.toList, true)
  | (out, some .corrupt) => (out.toList.take (delivered bs out.size), true)

end ContentImport.Inflate
