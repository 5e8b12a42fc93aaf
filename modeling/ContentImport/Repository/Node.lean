import ContentImport.Value
import ContentImport.Table

/-!
# Nodes and properties

A node has a type, mixin types, properties in the order in which they were first set, and the
names of its children in the order in which they were added.
-/

namespace ContentImport

/-- A property: a single value, or values of one declared type. -/
inductive Property
  | single (value : Value)
  | multiple (type : ValueType) (values : List Value)
  deriving DecidableEq, Inhabited

namespace Property

/-- The declared type of a property. -/
def type : Property → ValueType
  | .single v => v.type
  | .multiple t _ => t

/-- The value of a property that has a single one. -/
def value? : Property → Option Value
  | .single v => some v
  | .multiple _ _ => none

/-- A property as content: scalars, arrays of scalars, and the size of a single binary. -/
def toJson : Property → Json
  | .single (.binary bytes) => .object [("binary", .ofNat bytes.length)]
  | .single v => v.toJson
  | .multiple _ vs => .array (vs.map Value.toJson)

/-- A property with the types of its values. -/
def tagged : Property → Json
  | .single v => v.tagged
  | .multiple t vs =>
    .object [("kind", .string t.word), ("values", .array (vs.map Value.tagged))]

end Property

/-- A node. -/
structure Node where
  identifier : String
  type : String
  mixins : List String := []
  properties : Table Property := Table.empty
  children : List String := []
  deriving DecidableEq

namespace Node

/-- The member with the type of a node. -/
def typeMember : String := "jcr:primaryType"

/-- The member with the mixin types of a node. -/
def mixinsMember : String := "jcr:mixinTypes"

/-- Whether a type is the type or a mixin type of a node. -/
def hasType (n : Node) (type : String) : Bool := n.type == type || n.mixins.contains type

/-- The members that show a node without its children. A property takes the place of a member with
its name. -/
def members (n : Node) : Json.Members :=
  let types := (typeMember, Json.string n.type) ::
    (if n.mixins.isEmpty then [] else [(mixinsMember, Json.ofStrings n.mixins)])
  n.properties.rows.foldl (fun ms row => Table.put row.1 row.2.toJson ms) types

end Node

end ContentImport
