import ContentImport.Access.Composition
import ContentImport.Access.Order

/-!
# Placing entries in an access-control list

The new entries of a principal replace its old ones, and an order directive says where they go.

* `AccessList.principals` lists the principals in the order of their first entries.
* `AccessList.target` is the entry before which a directive puts a principal.
* `AccessList.place` replaces the entries of a principal. Without a directive they stay where the
  principal was.
-/

namespace ContentImport.AccessList

/-- The principals in the order of their first entries. -/
def principals (acl : AccessList) : List String :=
  Composition.distinct (acl.map Entry.principalName)

/-- The position of the first entry of a principal. -/
def firstOf? (acl : AccessList) (principal : String) : Option Nat :=
  acl.findIdx? fun e => e.principalName == principal

/-- The position of the last entry of a principal. -/
def lastOf? (acl : AccessList) (principal : String) : Option Nat :=
  (acl.reverse.findIdx? fun e => e.principalName == principal).map fun i => acl.length - 1 - i

/-- The number of principals that have an entry before the first one of a principal. -/
def rank? (acl : AccessList) (principal : String) : Option Nat :=
  if acl.any fun e => e.principalName == principal then
    some (AccessList.principals (acl.takeWhile fun e => e.principalName != principal)).length
  else none

/-- The position of the entry before which a directive points, none being the end. -/
def target (acl : AccessList) : OrderDirective → Except AccessError (Option Nat)
  | .first => .ok (if acl.isEmpty then none else some 0)
  | .last => .ok none
  | .before name =>
    match acl.firstOf? name with
    | some i => .ok (some i)
    | none => .error (.orderTargetNotFound name)
  | .after name =>
    match acl.lastOf? name with
    | some i => .ok (if i + 1 < acl.length then some (i + 1) else none)
    | none => .error (.orderTargetNotFound name)
  | .index n =>
    let names := acl.principals
    if n < 0 ∨ (names.length : Int) ≤ n then .error (.orderIndexOutOfRange n)
    else
      -- the last place is the end, where new entries are
      .ok (if n + 1 = names.length then none else names[n.toNat]?.bind acl.firstOf?)

/-- The list with the entries of a principal before the entry at a position, unless that entry is
one of them. -/
def moveBefore (acl : AccessList) (principal : String) (i : Nat) : AccessList :=
  match acl[i]? with
  | none => acl
  | some e =>
    if e.principalName = principal then acl
    else
      AccessList.without (acl.take i) principal ++ acl.of principal ++
        AccessList.without (acl.drop i) principal

/-- The directive that a text gives; none and the empty text give none. -/
def directive? (order : Option String) : Except AccessError (Option OrderDirective) :=
  match order with
  | none => .ok none
  | some text =>
    if text = "" then .ok none else (OrderDirective.parse text).map some

/-- The list with new entries in place of those of a principal. Without a directive they keep the
place of the principal among the others, a new principal coming last. -/
def place (acl : AccessList) (principal : String) (entries : List Entry) (order : Option String) :
    Except AccessError AccessList := do
  let given ← directive? order
  let directive := given.orElse fun _ =>
    if entries.isEmpty then none else (acl.rank? principal).map fun n => .index n
  let all := acl.without principal ++ entries
  match directive with
  | none => return all
  | some d =>
    match ← target all d with
    | none => return all
    | some i => return moveBefore all principal i

end ContentImport.AccessList
