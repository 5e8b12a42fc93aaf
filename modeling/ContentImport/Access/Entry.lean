import ContentImport.Access.Restriction

/-!
# Entries of an access-control list

An entry allows or denies privileges to a principal, under restrictions. A list keeps its entries
in order.
-/

namespace ContentImport

/-- The kind of a principal. -/
inductive PrincipalKind
  | user
  | group
  deriving DecidableEq, Inhabited

/-- The word for a kind of principal. -/
def PrincipalKind.word : PrincipalKind → String
  | .user => "user"
  | .group => "group"

/-- A user or a group to which entries are granted. -/
structure Principal where
  name : String
  kind : PrincipalKind
  deriving DecidableEq, Inhabited

/-- One entry. Its privileges are given by name, its restrictions are sorted by name. -/
structure Entry where
  principal : Principal
  privileges : List String
  isAllow : Bool
  single : List (String × Value)
  multiple : List (String × List Value)
  deriving DecidableEq, Inhabited

/-- The entries of one node in order. -/
abbrev AccessList := List Entry

namespace Entry

/-- The name of the principal of an entry. -/
def principalName (e : Entry) : String := e.principal.name

/-- An object member unless it is empty. -/
def unlessEmpty {α : Type} (name : String) (rows : List (String × α)) (toJson : α → Json) :
    Json.Members :=
  if rows.isEmpty then [] else [(name, .object (rows.map fun row => (row.1, toJson row.2)))]

/-- An entry as JSON. Missing restrictions are left out. -/
def toJson (e : Entry) : Json :=
  .object <|
    [ ("principal",
        .object [("name", .string e.principal.name), ("kind", .string e.principal.kind.word)]),
      ("privileges", Json.ofStrings e.privileges),
      ("is_allow", .bool e.isAllow) ] ++
    unlessEmpty "restrictions" e.single Value.tagged ++
    unlessEmpty "mv_restrictions" e.multiple fun vs => .array (vs.map Value.tagged)

end Entry

/-- The entries of a principal. -/
def AccessList.of (acl : AccessList) (principal : String) : AccessList :=
  acl.filter fun e => e.principalName == principal

/-- The entries of all principals but one. -/
def AccessList.without (acl : AccessList) (principal : String) : AccessList :=
  acl.filter fun e => e.principalName != principal

/-- A list as JSON. -/
def AccessList.toJson (acl : AccessList) : Json := .array (acl.map Entry.toJson)

end ContentImport
