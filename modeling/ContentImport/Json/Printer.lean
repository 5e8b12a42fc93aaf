import ContentImport.Json.Basic

/-!
# JSON text of a value

* `Json.compact` writes a value without blanks, `Json.pretty` with one member or item a line.
* `Json.Number.render` writes a double with the fewest digits, positionally from `1e-5` up to
  `1e16`.
-/

namespace ContentImport.Json

/-- Doubles are positional from `1e-5` up to `1e16` and keep `.0`; a tie goes to the even digit. -/
def doubleLayout : Decimal.Layout where
  isPositional := fun e => -5 ≤ e && e < 16
  keepPoint := true
  tieUp := false

/-- The text of a number. -/
def Number.render : Number → String
  | .integer n => Integer.render n
  | .double x => doubleLayout.render x

/-- The written form of a character in a JSON string. -/
def escapeChar (c : Char) : List Char :=
  if c == '"' then ['\\', '"']
  else if c == '\\' then ['\\', '\\']
  else if c == '\n' then ['\\', 'n']
  else if c == '\r' then ['\\', 'r']
  else if c == '\t' then ['\\', 't']
  else if c.toNat == 8 then ['\\', 'b']
  else if c.toNat == 12 then ['\\', 'f']
  else if c.toNat < 32 then
    ['\\', 'u', '0', '0', Text.hexDigit (c.toNat / 16), Text.hexDigit (c.toNat % 16)]
  else [c]

/-- A text as a JSON string. -/
def quote (s : String) : String :=
  "\"" ++ String.ofList (s.toList.flatMap escapeChar) ++ "\""

mutual

/-- The text of a value without blanks. -/
def compact : Json → String
  | .null => "null"
  | .bool b => if b then "true" else "false"
  | .number n => n.render
  | .string s => quote s
  | .array items => "[" ++ Text.join "," (compactItems items) ++ "]"
  | .object members => "\x7b" ++ Text.join "," (compactMembers members) ++ "\x7d"

/-- The texts of the items of an array. -/
def compactItems : List Json → List String
  | [] => []
  | item :: r => compact item :: compactItems r

/-- The texts of the members of an object. -/
def compactMembers : List (String × Json) → List String
  | [] => []
  | (name, value) :: r => (quote name ++ ":" ++ compact value) :: compactMembers r

end

/-- A line break and an indentation. -/
def newline (depth : Nat) : String := String.ofList ('\n' :: List.replicate (2 * depth) ' ')

/-- The lines of a bracketed list at a depth. -/
def block (first last : String) (depth : Nat) (lines : List String) : String :=
  if lines.isEmpty then first ++ last
  else first ++ newline (depth + 1) ++ Text.join ("," ++ newline (depth + 1)) lines ++
    newline depth ++ last

mutual

/-- The text of a value at a depth, items and members on lines of their own. -/
def prettyAt (depth : Nat) : Json → String
  | .null => "null"
  | .bool b => if b then "true" else "false"
  | .number n => n.render
  | .string s => quote s
  | .array items => block "[" "]" depth (prettyItems (depth + 1) items)
  | .object members => block "\x7b" "\x7d" depth (prettyMembers (depth + 1) members)

/-- The lines of the items of an array. -/
def prettyItems (depth : Nat) : List Json → List String
  | [] => []
  | item :: r => prettyAt depth item :: prettyItems depth r

/-- The lines of the members of an object. -/
def prettyMembers (depth : Nat) : List (String × Json) → List String
  | [] => []
  | (name, value) :: r => (quote name ++ ": " ++ prettyAt depth value) :: prettyMembers depth r

end

/-- The text of a value with an indentation of two blanks a level. -/
def pretty (j : Json) : String := prettyAt 0 j

end ContentImport.Json
