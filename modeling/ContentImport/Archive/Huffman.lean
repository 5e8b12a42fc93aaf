import ContentImport.Archive.Bits
import ContentImport.Number.Integer

/-!
# Canonical codes

A canonical code is told by the length of the code of each symbol: codes of one length are
consecutive numbers in the order of their symbols, and follow those of the shorter ones.

* `HuffmanCode.ofLengths` makes the code of given lengths. It can be read if it leaves no bit
  sequence unused (`IsComplete`); a code with next to no symbols may do so (`IsSmall`).
* `HuffmanCode.symbol` reads a symbol bit by bit.
-/

namespace ContentImport

/-- A canonical code. -/
structure HuffmanCode where
  /-- How many codes there are of length one, two and so on. -/
  counts : List Nat
  /-- The symbols in the order of their codes, the shorter ones first. -/
  symbols : Array Nat

namespace HuffmanCode

/-- The length of the longest code. -/
def maxLength : Nat := 15

/-- The symbols with codes of a length. -/
def ofLength (lengths : List Nat) (length : Nat) : List Nat :=
  (lengths.zipIdx.filter fun p => p.1 == length).map (·.2)

/-- The part of all bit sequences of the maximal length that begin with one of the codes. -/
def used (counts : List Nat) : Nat :=
  counts.zipIdx.foldl (fun n p => n + p.1 * 2 ^ (maxLength - 1 - p.2)) 0

/-- The code of given lengths, in which zero stands for a symbol without a code. -/
def ofLengths (lengths : List Nat) : HuffmanCode :=
  let groups := (List.range' 1 maxLength).map (ofLength lengths)
  ⟨groups.map List.length, groups.flatten.toArray⟩

/-- No bit sequence is unused, and none stands for two symbols. -/
def IsComplete (c : HuffmanCode) : Prop := used c.counts = 2 ^ maxLength

/-- There are no symbols, or there is one whose code is a single bit. -/
def IsSmall (c : HuffmanCode) : Prop := c.symbols.size ≤ 1 ∧ c.symbols.size = c.counts.headD 0

instance (c : HuffmanCode) : Decidable c.IsComplete := inferInstanceAs (Decidable (_ = _))

instance (c : HuffmanCode) : Decidable c.IsSmall := inferInstanceAs (Decidable (_ ∧ _))

/-- Reads a symbol when the bits read are the number `code`, the first code of that length is
`first`, and `index` symbols have shorter codes. The lists are the counts of the longer codes. -/
def walk (symbols : Array Nat) : List Nat → (code first index : Nat) → Bits.Reader Nat
  | [], _, _, _ => Bits.corrupt
  | count :: counts, code, first, index => do
    let code := 2 * code + (← Bits.bit)
    let first := 2 * first
    if code < first + count then
      match symbols[index + (code - first)]? with
      | some s => return s
      | none => Bits.corrupt
    else walk symbols counts code (first + count) (index + count)

/-- Reads a symbol. -/
def symbol (c : HuffmanCode) : Bits.Reader Nat := walk c.symbols c.counts 0 0 0

end HuffmanCode

end ContentImport
