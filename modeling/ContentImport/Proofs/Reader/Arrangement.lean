import ContentImport.Proofs.Json.Members
import ContentImport.Reader.Json

/-!
# The order in which a node is shown

A node is shown with its type, its mixin types, its properties and its children, in this order.
`arranged` brings the members of an object, and of all objects in it, into this order; it changes
nothing else (`reordered_arranged`).
-/

namespace ContentImport.JsonReader

/-! ## One object -/

/-- Whether a value is an object. -/
def isObject : Json → Bool
  | .object _ => true
  | _ => false

/-- The members that satisfy a test, and then the others as `order` puts them. -/
def firstOf (test : String × Json → Bool) (order : Json.Members → Json.Members)
    (members : Json.Members) : Json.Members :=
  members.filter test ++ order (members.filter fun m => !test m)

/-- Members with those that are objects last. -/
def childrenLast (members : Json.Members) : Json.Members :=
  firstOf (fun m => !isObject m.2) id members

/-- The members that tell neither the type nor the mixin types of a node. -/
def plainRows (members : Json.Members) : Json.Members :=
  (members.filter fun m => !(m.1 == typeMember)).filter fun m => !(m.1 == mixinsMember)

/-- Members in the order in which a node shows them. -/
def inOrder (members : Json.Members) : Json.Members :=
  firstOf (·.1 == typeMember) (firstOf (·.1 == mixinsMember) childrenLast) members

theorem plainRows_cons_of_ne {name : String} (htype : name ≠ typeMember)
    (hmixins : name ≠ mixinsMember) (j : Json) (members : Json.Members) :
    plainRows ((name, j) :: members) = (name, j) :: plainRows members := by
  simp [plainRows, htype, hmixins]

theorem plainRows_cons_of_eq {name : String} (h : name = typeMember ∨ name = mixinsMember)
    (j : Json) (members : Json.Members) :
    plainRows ((name, j) :: members) = plainRows members := by
  rcases h with rfl | rfl
  · simp [plainRows]
  · have hne : mixinsMember ≠ typeMember := by decide
    simp [plainRows, hne]

theorem firstOf_perm {test : String × Json → Bool} {order : Json.Members → Json.Members}
    (h : ∀ members, (order members).Perm members) (members : Json.Members) :
    (firstOf test order members).Perm members :=
  ((h _).append_left _).trans (List.filter_append_perm test members)

theorem inOrder_perm (members : Json.Members) : (inOrder members).Perm members := by
  have hlast : ∀ members, (childrenLast members).Perm members := firstOf_perm fun _ => .rfl
  exact firstOf_perm (firstOf_perm hlast) members

/-! ## All objects -/

mutual

/-- A value with the members of all objects in the order in which nodes show them. -/
def arranged : Json → Json
  | .object members => .object (inOrder (arrangedMembers members))
  | j => j

/-- Members with arranged values. -/
def arrangedMembers : List (String × Json) → List (String × Json)
  | [] => []
  | (name, value) :: r => (name, arranged value) :: arrangedMembers r

end

theorem arrangedMembers_eq (members : Json.Members) :
    arrangedMembers members = members.map fun m => (m.1, arranged m.2) := by
  induction members with
  | nil => rfl
  | cons m members ih => exact congrArg (_ :: ·) ih

theorem arranged_of_isObject_eq_false {j : Json} (h : isObject j = false) : arranged j = j := by
  cases j with
  | object => cases h
  | _ => rfl

theorem isObject_arranged (j : Json) : isObject (arranged j) = isObject j := by
  cases j <;> rfl

mutual

/-- **Arranging changes nothing but the order of the members of objects.** -/
theorem reordered_arranged : ∀ j, Json.Reordered j (arranged j)
  | .object members => .object (reorderedMembers members) (inOrder_perm _).symm
  | .null | .bool _ | .number _ | .string _ | .array _ => .refl _

theorem reorderedMembers : ∀ members : Json.Members,
    List.Forall₂ Json.ReorderedMember members (arrangedMembers members)
  | [] => .nil
  | (name, value) :: members => .cons (.intro name (reordered_arranged value))
      (reorderedMembers members)

end

end ContentImport.JsonReader
