import ContentImport.Repository.Basic

/-!
# Repositories as JSON

* `Repository.toJson` shows a node with all below it, the children after the properties. A child
  takes the place of a member with its name.
* `Repository.aclsToJson` shows the access-control lists of a subtree by path.
-/

namespace ContentImport.Repository

/-- The members with those of children, each shown by `render`. -/
def withChildren (render : String → Except RepositoryError Json) (path : String)
    (members : Json.Members) : List String → Except RepositoryError Json.Members
  | [] => .ok members
  | name :: r => do
    let child ← render (Path.join path name)
    withChildren render path (Table.put name child members) r

/-- A node with the children at most `fuel` levels deep. -/
def render (r : Repository) : Nat → String → Except RepositoryError Json
  | 0, path => .error (.nodeNotFound path)
  | fuel + 1, path =>
    match r.node? path with
    | none => .error (.nodeNotFound path)
    | some n => (withChildren (r.render fuel) path n.members n.children).map .object

/-- A node with all below it. The paths on the way to a node are all different, so there are not
more of them than nodes. -/
def toJson (r : Repository) (path : String) : Except RepositoryError Json :=
  r.render (r.nodes.rows.length + 1) path

/-- The stored access-control lists sorted by path. -/
def sortedPolicies (r : Repository) : List (String × AccessList) :=
  Composition.sortByKey (·.1) (fun a b => decide (a ≤ b)) r.policies.rows

/-- The access-control lists of a subtree by path. -/
def aclsToJson (r : Repository) (path : String) : Json :=
  .object ((r.sortedPolicies.filter fun row => Path.isWithin row.1 path).map fun row =>
    (row.1, AccessList.toJson row.2))

end ContentImport.Repository
