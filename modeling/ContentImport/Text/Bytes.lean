import ContentImport.Text.Utf8

/-!
# Bytes of markup

Operations on byte sequences in which only ASCII characters have a meaning.

* `Bytes.after?` and `Bytes.cutFirst?` look for a mark, at the beginning and anywhere.
* `Bytes.isBlank` are the blanks of markup, fewer than those of text.
-/

namespace ContentImport.Bytes

/-- The bytes of an ASCII character. -/
def char (c : Char) : UInt8 := UInt8.ofNat c.toNat

/-- The blanks of markup: space, carriage return, line feed and tab. -/
def isBlank (b : UInt8) : Bool := b == 32 || b == 13 || b == 10 || b == 9

/-- The bytes without the blanks at their beginning. -/
def trimStart (bs : Bytes) : Bytes := bs.dropWhile isBlank

/-- The bytes without the blanks at their end. -/
def trimEnd (bs : Bytes) : Bytes := (bs.reverse.dropWhile isBlank).reverse

/-- What follows a mark in bytes that begin with it. -/
def after? (mark : String) (bs : Bytes) : Option Bytes := (Utf8.encode mark).isPrefixOf? bs

/-- What stands before and after the first occurrence of a mark that is not empty. -/
def cutFirst? (mark : Bytes) : Bytes → Option (Bytes × Bytes)
  | [] => none
  | b :: r =>
    match mark.isPrefixOf? (b :: r) with
    | some rest => some ([], rest)
    | none => (cutFirst? mark r).map fun p => (b :: p.1, p.2)

end ContentImport.Bytes
