import ContentImport.Number.Shortest
import ContentImport.Table

/-!
# JSON values

A `Json` value keeps the members of an object in order. A number is an integer of at most 64 bits
or a double.
-/

namespace ContentImport

/-- A JSON number: an integer between `-2 ^ 63` and `2 ^ 64 - 1`, or a finite double. -/
inductive Json.Number
  | integer (n : Int)
  | double (x : Binary64)
  deriving DecidableEq, Inhabited

/-- A JSON value. -/
inductive Json
  | null
  | bool (b : Bool)
  | number (n : Json.Number)
  | string (s : String)
  | array (items : List Json)
  | object (members : List (String × Json))
  deriving Inhabited

namespace Json

/-- The object members of a JSON object. -/
abbrev Members := List (String × Json)

/-- The value of a member. -/
abbrev Members.get? (members : Members) (name : String) : Option Json := Table.lookup name members

/-- The text of a JSON string. -/
def string? : Json → Option String
  | .string s => some s
  | _ => none

/-- The name of the kind of a value. -/
def kindName : Json → String
  | .null => "null"
  | .bool _ => "boolean"
  | .number _ => "number"
  | .string _ => "string"
  | .array _ => "array"
  | .object _ => "object"

/-- An integer as a JSON number. -/
def ofInt (n : Int) : Json := .number (.integer n)

/-- A natural number as a JSON number. -/
def ofNat (n : Nat) : Json := ofInt n

/-- A double as a JSON value: `null` if it is not finite. -/
def ofDouble (x : Binary64) : Json := if x.isFinite then .number (.double x) else .null

/-- A list of texts as a JSON array. -/
def ofStrings (texts : List String) : Json := .array (texts.map .string)

namespace Number

/-- The number as a signed 64-bit integer, if it is one. -/
def long? : Number → Option Int64
  | .integer n => Integer.toLong? n
  | .double _ => none

/-- The double nearest to the number. -/
def toDouble : Number → Binary64
  | .integer n => Binary64.round (n < 0) n.natAbs 1
  | .double x => x

end Number

end Json

end ContentImport
