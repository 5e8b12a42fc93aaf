import ContentImport.Json.Decode
import ContentImport.Json.Printer
import ContentImport.Text.Utf8
import ContentImport.Time.Timestamp

/-!
# Typed values

The values that properties and restrictions hold.

* `Value.parse` reads the text of a value of a given type, and `Value.text` writes it.
* `Value.ofJson` reads a JSON scalar: numbers and truth values keep their own type.
* `Value.tagged` and `Value.ofTagged?` are the form with the type beside the value.
-/

namespace ContentImport

/-- The type of a value. An undefined type is read as a string. -/
inductive ValueType
  | undefined
  | string
  | long
  | double
  | boolean
  | name
  | path
  | reference
  | uri
  | date
  | binary
  deriving DecidableEq, Inhabited

namespace ValueType

/-- The word for a type. -/
def word : ValueType → String
  | .undefined => "undefined"
  | .string => "string"
  | .long => "long"
  | .double => "double"
  | .boolean => "boolean"
  | .name => "name"
  | .path => "path"
  | .reference => "reference"
  | .uri => "uri"
  | .date => "date"
  | .binary => "binary"

/-- All types. -/
def all : List ValueType :=
  [.undefined, .string, .long, .double, .boolean, .name, .path, .reference, .uri, .date, .binary]

/-- The type that a word in letters of any case names. -/
def ofWord? (s : String) : Option ValueType := all.find? fun t => Text.sameLetters t.word s

end ValueType

/-- A value with its type. Doubles are the same if their bits are. -/
inductive Value
  | string (s : String)
  | long (n : Int64)
  | double (x : Binary64)
  | boolean (b : Bool)
  | name (s : String)
  | path (s : String)
  | reference (s : String)
  | uri (s : String)
  | date (s : String)
  | binary (bytes : Bytes)
  deriving DecidableEq, Inhabited

namespace Value

/-- A text that is no value of a type. -/
structure Invalid where
  type : ValueType
  text : String
  deriving DecidableEq

/-- What is wrong with the text. -/
def Invalid.message (e : Invalid) : String :=
  "invalid " ++ e.type.word ++ " value '" ++ e.text ++ "'"

/-- The type of a value. -/
def type : Value → ValueType
  | .string _ => .string
  | .long _ => .long
  | .double _ => .double
  | .boolean _ => .boolean
  | .name _ => .name
  | .path _ => .path
  | .reference _ => .reference
  | .uri _ => .uri
  | .date _ => .date
  | .binary _ => .binary

/-- The truth value that a text in letters of any case names. -/
def readBoolean? (s : String) : Option Bool :=
  if Text.sameLetters s "true" then some true
  else if Text.sameLetters s "false" then some false
  else none

/-- The value of a type that a text writes. Blanks around numbers and truth values are
dropped. -/
def parse? : ValueType → String → Option Value
  | .undefined, s | .string, s => some (.string s)
  | .long, s => (Integer.long? (Text.trim s)).map .long
  | .double, s => (Binary64.read? (Text.trim s)).map .double
  | .boolean, s => (readBoolean? (Text.trim s)).map .boolean
  | .name, s => some (.name s)
  | .path, s => some (.path s)
  | .reference, s => some (.reference s)
  | .uri, s => some (.uri s)
  | .date, s => if Timestamp.isDateText s then some (.date s) else none
  | .binary, s => some (.binary (Utf8.encode s))

/-- The value of a type that a text writes. -/
def parse (type : ValueType) (s : String) : Except Invalid Value :=
  match parse? type s with
  | some v => .ok v
  | none => .error ⟨type, s⟩

theorem parse_eq_ok_iff {type : ValueType} {s : String} {v : Value} :
    parse type s = .ok v ↔ parse? type s = some v := by
  rw [parse]
  cases parse? type s <;> simp

/-- A value that a text writes has the type that is asked for, or is a string if none is. -/
theorem type_of_parse? {type : ValueType} {s : String} {v : Value} (hv : parse? type s = some v) :
    v.type = if type = .undefined then .string else type := by
  cases type <;> rw [parse?] at hv
  case long | double | boolean =>
    obtain ⟨n, -, rfl⟩ := Option.map_eq_some_iff.1 hv
    rfl
  case date =>
    split at hv
    · obtain rfl := Option.some.inj hv
      rfl
    · cases hv
  all_goals
    obtain rfl := Option.some.inj hv
    rfl

/-- The text of a value. -/
def text : Value → String
  | .string s | .name s | .path s | .reference s | .uri s | .date s => s
  | .long n => Integer.render n.toInt
  | .double x => Decimal.renderPlain x
  | .boolean b => if b then "true" else "false"
  | .binary bytes => Utf8.decodeLossy bytes

/-! ## JSON scalars -/

/-- A JSON number as a long, or as a double if it is out of range. -/
def ofNumber (n : Json.Number) : Value :=
  match n.long? with
  | some n => .long n
  | none => .double n.toDouble

/-- The value of a JSON scalar, a string being read as the given type. -/
def ofJson (type : ValueType) : Json → Except Invalid Value
  | .number n => .ok (ofNumber n)
  | .bool b => .ok (.boolean b)
  | .string s => parse type s
  | j => .error ⟨type, j.compact⟩

/-- A value as a JSON scalar. -/
def toJson : Value → Json
  | .long n => .ofInt n.toInt
  | .double x => .ofDouble x
  | .boolean b => .bool b
  | v => .string v.text

/-! ## The tagged form -/

/-- The part of the tagged form beside the type: bytes as an array of numbers. -/
def content : Value → Json
  | .binary bytes => .array (bytes.map fun b => .ofNat b.toNat)
  | v => v.toJson

/-- A value as an object of its type and its content. -/
def tagged (v : Value) : Json := .object [("type", .string v.type.word), ("value", v.content)]

/-- The word in a type field: a string, or an object with the word as the name of a null. -/
def tagWord? : Json.Raw → Option String
  | .string s => s
  | .object [(word, .null)] => word
  | _ => none

/-- A byte in an array of numbers. -/
def byte? (raw : Json.Raw) : Option UInt8 :=
  raw.natural?.bind fun n => if n < 256 then some (UInt8.ofNat n) else none

/-- A signed 64-bit integer. -/
def long? : Json.Raw → Option Int64
  | .number t => t.value?.bind Json.Number.long?
  | _ => none

/-- The value with a type word and a content. -/
def ofContent? (word : String) (raw : Json.Raw) : Option Value :=
  match ValueType.all.find? fun t => t.word == word with
  | some .string => raw.text?.map .string
  | some .long => (long? raw).map .long
  | some .double => raw.double?.map .double
  | some .boolean => raw.boolean?.map .boolean
  | some .name => raw.text?.map .name
  | some .path => raw.text?.map .path
  | some .reference => raw.text?.map .reference
  | some .uri => raw.text?.map .uri
  | some .date => raw.text?.map .date
  | some .binary => (raw.list? byte?).map .binary
  | _ => none

/-- The value of a JSON text in the tagged form. -/
def ofTagged? (s : String) : Option Value := do
  let raw ← Json.Raw.parse? s
  match ← raw.fields? ["type", "value"] with
  | [some tag, some content] => ofContent? (← tagWord? tag) content
  | _ => none

end Value

end ContentImport
