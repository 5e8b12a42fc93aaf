import ContentImport.Number.Integer
import ContentImport.Text.Bytes

/-!
# References

In XML text an ampersand, a name and a semicolon stand for a character.

* `Reference.char?` says for which character a name stands.
* `Reference.resolve?` puts the characters in place of the references of a text.
-/

namespace ContentImport.Xml.Reference

/-- The characters that have names. -/
def named : List (String × Char) :=
  [("lt", '<'), ("gt", '>'), ("amp", '&'), ("apos", '\''), ("quot", '"')]

/-- The number of hexadecimal digits, of which there is at least one. -/
def hexNumber? (ds : List Char) : Option Nat :=
  if ds.isEmpty then none
  else ds.foldlM (fun n d => (Text.hexValue? d).map (n * 16 + ·)) 0

/-- The character with a code, which is neither zero nor a surrogate. -/
def ofCode? (n : Nat) : Option Char :=
  if h : n.isValidChar then if n = 0 then none else some (Char.ofNatAux n h) else none

/-- The character for which a name or a number stands. -/
def char? : List Char → Option Char
  | '#' :: 'x' :: ds => (hexNumber? ds).bind ofCode?
  | '#' :: ds => (Integer.ofDigits? ds).bind ofCode?
  | name => (named.find? fun n => n.1 == String.ofList name).map (·.2)

/-- Characters with the references resolved; the first argument is what is read of the name of a
reference, the last character first. -/
def scan : Option (List Char) → List Char → Option (List Char)
  | none, [] => some []
  | some _, [] => none
  | none, c :: r => if c = '&' then scan (some []) r else (scan none r).map (c :: ·)
  | some name, c :: r =>
    if c = ';' then (char? name.reverse).bind fun x => (scan none r).map (x :: ·)
    else if c = '&' then none
    else scan (some (c :: name)) r

/-- The text of UTF-8 bytes with the references resolved. -/
def resolve? (raw : Bytes) : Option String :=
  (Utf8.decode? raw).bind fun s => (scan none s.toList).map String.ofList

end ContentImport.Xml.Reference
