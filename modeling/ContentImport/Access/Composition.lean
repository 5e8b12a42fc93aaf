import ContentImport.Access.Error
import ContentImport.Access.Grant

/-!
# Composing entries from grants

The grants of a principal become one entry for every distinct set of restrictions on either side.

* `Grant.bound` keeps the grants that allow or deny something and demands that they are bound.
* `Composition.groups` collects the privileges of a side by restrictions in the order in which
  these are first met.
* `compose` puts the denying entries before the allowing ones and, on either side, entries with a
  privilege of less depth first.
-/

namespace ContentImport

/-- The grants that allow or deny something, each with its privilege. -/
def Grant.bound (grants : List Grant) : Except AccessError (List (Grant × Privilege)) :=
  (grants.filter Grant.isActive).mapM fun g =>
    match g.privilege with
    | some p => .ok (g, p)
    | none => .error (.unresolvedPrivilege g.name)

namespace Composition

/-! ## Sorting -/

/-- Inserts an element behind those whose key is not greater. -/
def insertByKey {α κ : Type} (key : α → κ) (le : κ → κ → Bool) (a : α) : List α → List α
  | [] => [a]
  | b :: r => if le (key b) (key a) then b :: insertByKey key le a r else a :: b :: r

/-- Sorts by a key; elements with equal keys keep their order. -/
def sortByKey {α κ : Type} (key : α → κ) (le : κ → κ → Bool) (l : List α) : List α :=
  l.foldl (fun sorted a => insertByKey key le a sorted) []

/-- The order of depths, in which a missing one is deepest. -/
def depthLe : Option Nat → Option Nat → Bool
  | _, none => true
  | none, some _ => false
  | some a, some b => a ≤ b

/-- The least of the depths, a missing one being deepest. -/
def leastDepth (depths : List (Option Nat)) : Option Nat :=
  depths.foldl (fun a b => if depthLe a b then a else b) none

/-! ## Groups -/

/-- Privileges under the restrictions that they share. -/
structure Group where
  restrictions : RestrictionSet
  privileges : List String

/-- The groups with a further privilege under restrictions. -/
def addTo (restrictions : RestrictionSet) (privilege : String) : List Group → List Group
  | [] => [⟨restrictions, [privilege]⟩]
  | g :: r =>
    if g.restrictions = restrictions then { g with privileges := g.privileges ++ [privilege] } :: r
    else g :: addTo restrictions privilege r

/-- The privileges of a side by restrictions, in the order in which these are first met. -/
def groups (isAllow : Bool) (bound : List (Grant × Privilege)) : List Group :=
  bound.foldl (fun gs gp =>
    match gp.1.side isAllow with
    | some restrictions => addTo restrictions gp.2.name gs
    | none => gs) []

/-- The distinct names of a list in the order of their first occurrence. -/
def distinct : List String → List String
  | [] => []
  | x :: r => x :: (distinct r).filter (· != x)

/-- The entries of one side. -/
def side (principal : Principal) (depths : DepthMap) (isAllow : Bool)
    (bound : List (Grant × Privilege)) : List Entry :=
  (sortByKey (fun g => leastDepth (g.privileges.map depths.get?)) depthLe
      (groups isAllow bound)).map fun g =>
    { principal
      privileges := distinct g.privileges
      isAllow
      single := g.restrictions.single
      multiple := g.restrictions.multiple }

end Composition

/-- The entries of a principal that its grants amount to. -/
def compose (principal : Principal) (grants : List Grant) (depths : DepthMap) :
    Except AccessError (List Entry) := do
  let bound ← Grant.bound grants
  return Composition.side principal depths false bound ++
    Composition.side principal depths true bound

end ContentImport
