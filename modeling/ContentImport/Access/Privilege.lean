import ContentImport.Table

/-!
# Privileges

A privilege is a named right; an aggregate contains the privileges that it declares.

* `Privilege` is a privilege with all that it contains. Privileges are told apart by name.
* `DepthMap.build` gives the depth of every privilege below a root: one for the root, and one
  more than the deepest of its containers for any other.
-/

namespace ContentImport

/-- A privilege with the privileges that it declares to contain. -/
inductive Privilege
  | mk (name : String) (isAbstract : Bool) (aggregates : List Privilege)
  deriving Inhabited

namespace Privilege

/-- The name of a privilege. -/
def name : Privilege → String
  | .mk name _ _ => name

/-- Whether a privilege is abstract. -/
def isAbstract : Privilege → Bool
  | .mk _ isAbstract _ => isAbstract

/-- The privileges that a privilege declares to contain. -/
def aggregates : Privilege → List Privilege
  | .mk _ _ aggregates => aggregates

/-- A privilege that contains no other. -/
def leaf (name : String) : Privilege := .mk name false []

end Privilege

/-- Depths by name. -/
abbrev DepthMap := Table Nat

namespace DepthMap

mutual

/-- The depths with those below a privilege at `depth`. A privilege that is met again is followed
only if it lies deeper than before. -/
def deepen (depth : Nat) (depths : DepthMap) : Privilege → DepthMap
  | .mk _ _ aggregates => deepenAll (depth + 1) depths aggregates

/-- The depths with those of privileges met at `depth`, and below them. -/
def deepenAll (depth : Nat) (depths : DepthMap) : List Privilege → DepthMap
  | [] => depths
  | p :: r =>
    if (depths.get? p.name).all (· < depth) then
      deepenAll depth (deepen depth (depths.insert p.name depth) p) r
    else deepenAll depth depths r

end

/-- The depth of every privilege below a root. -/
def build (root : Privilege) : DepthMap := deepen 1 (Table.empty.insert root.name 1) root

end DepthMap

end ContentImport
