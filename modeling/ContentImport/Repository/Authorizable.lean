import ContentImport.Access.Entry
import ContentImport.Digest.Sha256

/-!
# Users and groups

An authorizable is a user or a group. Its home path spreads the authorizables of a kind over
folders named by the digest of the identifier; a password is kept as a digest.
-/

namespace ContentImport

/-- A user or a group. -/
structure Authorizable where
  id : String
  kind : PrincipalKind
  home : String
  passwordHash : Option String := none
  members : List String := []
  properties : Table Value := Table.empty
  deriving DecidableEq

namespace Authorizable

/-- The group to which every principal belongs. -/
def everyone : String := "everyone"

/-- The digest under which a password is kept. -/
def hash (password : String) : String := "\x7bsha-256\x7d" ++ Sha256.hexDigest password

/-- The home path of an identifier: three levels of two digits of its digest, and itself. -/
def homePath (base id : String) : String :=
  let digits := (Sha256.hexDigest id).toList
  let level (i : Nat) := String.ofList ((digits.drop (2 * i)).take 2)
  Text.join "/" [base, level 0, level 1, level 2, id]

/-- A new user. -/
def user (id : String) (password : Option String) : Authorizable where
  id
  kind := .user
  home := homePath "/home/users" id
  passwordHash := password.map hash

/-- A new group. -/
def group (id : String) : Authorizable where
  id
  kind := .group
  home := homePath "/home/groups" id

/-- Whether this is a group. -/
def isGroup (a : Authorizable) : Bool := a.kind == .group

/-- The principal of an authorizable. -/
def principal (a : Authorizable) : Principal := ⟨a.id, a.kind⟩

/-- Whether a password is the one that is kept. -/
def checkPassword (a : Authorizable) (password : String) : Bool :=
  a.passwordHash == some (hash password)

/-- An authorizable as JSON. What is missing or empty is left out. -/
def toJson (a : Authorizable) : Json :=
  .object <|
    [("id", .string a.id), ("kind", .string a.kind.word), ("home_path", .string a.home)] ++
    (match a.passwordHash with
      | some h => [("password_hash", .string h)]
      | none => []) ++
    (if a.members.isEmpty then [] else [("members", Json.ofStrings a.members)]) ++
    (if a.properties.isEmpty then []
      else [("properties", .object (a.properties.rows.map fun row => (row.1, .string row.2.text)))])

end Authorizable

end ContentImport
