import ContentImport.Import.Call
import ContentImport.Json.Printer
import ContentImport.Json.Raw

/-!
# JSON documents

A JSON document describes a node: members that are objects become children, other members become
properties, and two members describe principals and access-control entries.

* `JsonReader.node` is the script of an object, `JsonReader.member` that of a member.
* `JsonReader.principals` and `JsonReader.accessList` read the two special members.
* `JsonReader.script` reads a whole document.
-/

namespace ContentImport.JsonReader

/-! ## Names -/

/-- The type that a name tells by how it begins. -/
def leads : List (String × ValueType) :=
  [ ("jcr:reference:", .reference), ("jcr:path:", .path), ("jcr:name:", .name),
    ("jcr:uri:", .uri) ]

def principalsMember : String := "security:principals"
def accessMember : String := "security:acl"
def typeMember : String := "jcr:primaryType"
def mixinsMember : String := "jcr:mixinTypes"

/-- Members that belong to the node itself or to the repository. -/
def ignoredNames : List String :=
  [ "jcr:primaryType", "jcr:mixinTypes", "jcr:uuid", "jcr:baseVersion", "jcr:predecessors",
    "jcr:successors", "jcr:checkedOut", "jcr:created" ]

/-- Members of a principal that are no properties of it. -/
def principalKeys : List String := ["name", "isgroup", "members", "dynamic", "password"]

/-- What follows the beginning of a name that tells a type, and the type. -/
def lead? (name : String) : Option (String × ValueType) :=
  leads.findSome? fun l => (Text.after? l.1 name).map fun rest => (rest, l.2)

/-- The name of the property for a member. -/
def propertyName (name : String) : String :=
  match lead? name with
  | some (rest, _) => rest
  | none => name

/-! ## Values -/

/-- The type of the value of a member. A string has the type that the name tells, or is a date if
it looks like one. -/
def propertyType (name : String) : Json → ValueType
  | .null => .string
  | .number (.double _) => .double
  | .number (.integer _) => .long
  | .bool _ => .boolean
  | .string s =>
    match lead? name with
    | some (_, t) => t
    | none => if Timestamp.isDateText s then .date else .undefined
  | _ => .undefined

/-- The text of a value; a null has none. -/
def scalarText? : Json → Option String
  | .null => none
  | .string s => some s
  | j => some j.compact

/-- The script of a property. Nulls are skipped, and the first item tells the type of an array. -/
def property (name : String) : Json → Script Unit
  | .null => .done ()
  | .array [] => .call (.setProperties (propertyName name) .string [])
  | .array (item :: items) =>
    .call (.setProperties (propertyName name) (propertyType name item)
      ((item :: items).filterMap scalarText?))
  | j =>
    match scalarText? j with
    | some text => .call (.setProperty (propertyName name) (propertyType name j) text)
    | none => .done ()

/-- A fault of the content. -/
def fault {α : Type} (f : ContentFault) : Except ImportError α := .error (.invalid f)

/-- The texts of an array of strings. -/
def strings (field : String) : Json → Except ImportError (List String)
  | .array items => items.mapM fun item =>
    match item with
    | .string s => .ok s
    | j => fault (.notString field j.kindName)
  | _ => fault (.notArray field)

/-! ## Principals -/

/-- A property of a principal. Arrays and objects are kept as JSON text. -/
def extraValue? : Json → Option Value
  | .null => none
  | .bool b => some (.boolean b)
  | .number n => some (Value.ofNumber n)
  | .string s => some (.string s)
  | j => some (.string j.compact)

/-- The properties of a principal. -/
def extra (members : Json.Members) : Table Value :=
  Table.ofList ((members.filter fun m => !principalKeys.contains m.1).filterMap fun m =>
    (extraValue? m.2).map fun v => (m.1, v))

/-- Whether a principal is a group. -/
def isGroup (members : Json.Members) : Bool :=
  match members.get? "isgroup" with
  | some (.bool b) => b
  | some (.string s) => Text.sameLetters s "true"
  | _ => false

/-- The call that creates a principal. -/
def principalCall (members : Json.Members) : Except ImportError Call := do
  let name ← match members.get? "name" with
    | some (.string s) => .ok s
    | _ => fault .principalName
  if isGroup members then
    let ids ← match members.get? "members" with
      | none | some .null => .ok []
      | some j => strings "members" j
    return .createGroup name ids (extra members)
  else
    return .createUser name ((members.get? "password").bind Json.string?) (extra members)

/-- The script of one principal. -/
def principal (members : Json.Members) : Script Unit :=
  (Script.ofResult (principalCall members)).bind .call

/-- The script of principals: an object or an array of objects. -/
def principals : Json → Script Unit
  | .object members => principal members
  | .array items => Script.each (fun item =>
    match item with
    | .object members => principal members
    | j => .fail (.invalid (.principalKind j.kindName))) items
  | _ => .done ()

/-! ## Access control -/

/-- The definitions of restrictions by name, the last one of a name counting. -/
abbrev Supported := Table RestrictionDefinition

/-- The definitions of a list. -/
def supported (definitions : List RestrictionDefinition) : Supported :=
  Table.ofList (definitions.map fun d => (d.name, d))

/-- The value of a restriction: any truth value counts as `false`, and a null, an array or an
object is no value. -/
def restrictionValue (type : ValueType) : Json → Except ImportError (Option Value)
  | .bool _ => .ok (some (.boolean false))
  | .number n => .ok (some (Value.ofNumber n))
  | .string s =>
    match Value.parse type s with
    | .ok v => .ok (some v)
    | .error e => .error (.access (.invalidValue e))
  | _ => .ok none

/-- The values of restrictions, without those that are none. -/
def restrictionValues (type : ValueType) (items : List Json) : Except ImportError (List Value) := do
  return (← items.mapM (restrictionValue type)).filterMap id

/-- A restriction from a member. An empty array under a single-valued name is skipped. -/
def restriction (supported : Supported) (name : String) (j : Json) :
    Except ImportError (Option Restriction) :=
  match supported.get? name with
  | none => fault (.unknownRestriction name)
  | some d =>
    if d.isMultiple then do
      let items := match j with
        | .array items => items
        | j => [j]
      return some ⟨name, .multiple (some (← restrictionValues d.type items))⟩
    else match j with
      | .array [] => .ok none
      | .array [item] => do return some ⟨name, .single (← restrictionValue d.type item)⟩
      | .array _ => fault (.severalValues name)
      | j => do return some ⟨name, .single (← restrictionValue d.type j)⟩

/-- The restrictions of an object. -/
def restrictions (supported : Supported) (members : Json.Members) :
    Except ImportError RestrictionSet := do
  let rs ← members.mapM fun m => restriction supported m.1 m.2
  (RestrictionSet.ofList (rs.filterMap id)).mapError fun name =>
    .access (.duplicateRestriction name)

/-- The restrictions of one side of a privilege: an object or `true` turns the side on. -/
def side (supported : Supported) : Option Json → Except ImportError (Option RestrictionSet)
  | some (.object members) => do return some (← restrictions supported members)
  | some (.bool true) => .ok (some .empty)
  | _ => .ok none

/-- A member that is not null. -/
def present? (members : Json.Members) (name : String) : Option Json :=
  match members.get? name with
  | some .null => none
  | j => j

/-- The names of a list of privileges that may be missing. -/
def names (field : String) : Option Json → Except ImportError (List String)
  | none => .ok []
  | some j => strings field j

/-- The grants of the members that list privileges under shared restrictions. -/
def listedGrants (supported : Supported) (members : Json.Members) : Except ImportError Grants := do
  let granted := present? members "granted"
  let denied := present? members "denied"
  if granted.isNone && denied.isNone then return Table.empty
  let shared ← match members.get? "restrictions" with
    | some (.object rs) => restrictions supported rs
    | _ => .ok .empty
  let grants := (← names "granted" granted).foldl (fun gs n => Grants.allow gs n shared) Table.empty
  return (← names "denied" denied).foldl (fun gs n => Grants.deny gs n shared) grants

/-- The grants with one side of a privilege. -/
def withSide (add : Grants → String → RestrictionSet → Grants) (gs : Grants) (name : String) :
    Option RestrictionSet → Grants
  | some rs => add gs name rs
  | none => gs

/-- The grants with those of a member that describes a privilege. -/
def addPrivilege (supported : Supported) (gs : Grants) (m : String × Json) :
    Except ImportError Grants :=
  match m.2 with
  | .object sides => do
    let gs := withSide Grants.allow gs m.1 (← side supported (Json.Members.get? sides "allow"))
    return withSide Grants.deny gs m.1 (← side supported (Json.Members.get? sides "deny"))
  | _ => .ok gs

/-- The grants of an entry: those that are listed, and those of each privilege. -/
def grants (supported : Supported) (members : Json.Members) : Except ImportError Grants := do
  let listed ← listedGrants supported members
  match members.get? "privileges" with
  | some (.object ps) => ps.foldlM (addPrivilege supported) listed
  | _ => return listed

/-- The order directive of an entry. A number is an index. -/
def order (members : Json.Members) : Except ImportError (Option String) :=
  match members.get? "order" with
  | none | some .null => .ok none
  | some (.string s) => .ok (some s)
  | some (.number n) => .ok (some n.render)
  | some j => fault (.orderKind j.kindName)

/-- The call that sets the entries of a principal. -/
def entriesCall (supported : Supported) (members : Json.Members) : Except ImportError Call := do
  let principal ← match members.get? "principal" with
    | some (.string s) => .ok s
    | _ => fault .entryPrincipal
  let order ← order members
  return .setEntries principal (← grants supported members).values order

/-- The script of the entries of one principal. -/
def entries (supported : Supported) (members : Json.Members) : Script Unit :=
  (Script.ofResult (entriesCall supported members)).bind .call

/-- The script of an access-control list: an object or an array of objects. -/
def accessList (supported : Supported) : Json → Script Unit
  | .object members => entries supported members
  | .array items => Script.each (fun item =>
    match item with
    | .object members => entries supported members
    | j => .fail (.invalid (.entryKind j.kindName))) items
  | _ => .done ()

/-! ## Nodes -/

/-- The mixin types of an object. -/
def mixins (members : Json.Members) : Except ImportError (List String) :=
  match members.get? mixinsMember with
  | some (.array items) => strings mixinsMember (.array items)
  | _ => .ok []

/-- The call that opens the node of an object. -/
def openCall (name : Option String) (members : Json.Members) : Except ImportError Call := do
  return .openNode name ((members.get? typeMember).bind Json.string?) (← mixins members)

/-- What comes between opening and closing the node of an object. -/
def around (name : Option String) (members : Json.Members) (inside : Script Unit) :
    Script Unit := do
  Script.call (← Script.ofResult (openCall name members))
  inside
  Script.call .closeNode

mutual

/-- The script of a member. -/
def member (supported : Supported) (name : String) : Json → Script Unit
  | .object children =>
    if name = principalsMember then principals (.object children)
    else if name = accessMember then accessList supported (.object children)
    else around (some name) children (members supported children)
  | j =>
    if name = principalsMember then principals j
    else if name = accessMember then accessList supported j
    else property name j

/-- The script of the members of an object, of which some are ignored. -/
def members (supported : Supported) : List (String × Json) → Script Unit
  | [] => .done ()
  | (name, value) :: r => do
    if name ∉ ignoredNames then member supported name value
    members supported r

end

/-- The script of an object. -/
def node (supported : Supported) (name : Option String) (object : Json.Members) : Script Unit :=
  around name object (members supported object)

/-! ## Documents -/

/-- The blanks that end the name of an encoding. -/
def isBlankByte (b : UInt8) : Bool := b == 32 || b == 9 || b == 10 || b == 12 || b == 13

/-- The text of a document. It may begin with a number sign and the name of the encoding, which
has to be UTF-8. -/
def decode (bytes : Bytes) : Except ImportError String := do
  let body ← match bytes with
    | 35 :: r =>
      let name := Utf8.decodeLossy (r.takeWhile fun b => !isBlankByte b)
      if Text.sameLetters name "utf-8" || Text.sameLetters name "utf8" then
        .ok (r.dropWhile fun b => !isBlankByte b)
      else fault (.unknownEncoding name)
    | r => .ok r
  match Utf8.decode? body with
  | some text => .ok text
  | none => fault .notUtf8

/-- The object that a text describes. The braces around it may be missing. -/
def document? (text : String) : Except ImportError Json.Members :=
  let text := Text.trim text
  let text := if Text.startsWith "\x7b" text then text else "\x7b" ++ text ++ "\x7d"
  match Json.parse? text with
  | some (.object members) => .ok members
  | _ => .error .malformedJson

/-- The script of a document. -/
def script (definitions : List RestrictionDefinition) (bytes : Bytes) : Script Unit := do
  let text ← Script.ofResult (decode bytes)
  let object ← Script.ofResult (document? text)
  node (supported definitions) none object

end ContentImport.JsonReader
