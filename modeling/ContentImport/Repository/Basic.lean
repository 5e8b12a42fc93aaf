import ContentImport.Access.Placement
import ContentImport.Repository.Authorizable
import ContentImport.Repository.Node
import ContentImport.Repository.Path
import ContentImport.Repository.Registry

/-!
# The repository

A repository holds a tree of nodes by path, users and groups by identifier, and an access-control
list for some of the nodes.

* `Change` is a change of the repository: it returns a value or fails, and either way leaves a
  repository.
* `addNode`, `removeNode` and so on are the changes; `updateEntries` replaces the entries of a
  principal on a node.
* `principal`, `acl`, `children` and so on ask without changing anything.
-/

namespace ContentImport

/-- Why a change of the repository fails. -/
inductive RepositoryError
  | nodeNotFound (path : String)
  | nodeExists (path : String)
  | invalidName (name : String)
  | userExists (id : String)
  | groupExists (id : String)
  | authorizableNotFound (id : String)
  | access (e : AccessError)
  deriving DecidableEq

/-- The text of an error. -/
def RepositoryError.message : RepositoryError → String
  | .nodeNotFound path => "node '" ++ path ++ "' not found"
  | .nodeExists path => "node '" ++ path ++ "' already exists"
  | .invalidName name => "invalid node name '" ++ name ++ "'"
  | .userExists id => "A user already exists with the requested name: " ++ id
  | .groupExists id => "A group already exists with the requested name: " ++ id
  | .authorizableNotFound id => "authorizable '" ++ id ++ "' not found"
  | .access e => e.message

/-- Nodes, authorizables and access-control lists. New nodes are numbered, and their identifiers
are made from the numbers. -/
structure Repository where
  nodes : Table Node
  authorizables : Table Authorizable := Table.empty
  policies : Table AccessList := Table.empty
  registry : Registry
  restrictions : List RestrictionDefinition
  serial : Nat

namespace Repository

/-! ## New repositories -/

/-- The identifier of the node with a number, in the form of a UUID. -/
def identifier (serial : Nat) : String :=
  let ds := Nat.toDigits 16 serial
  "8d1f3c60-5b7e-4c2a-9e04-" ++ String.ofList (List.replicate (12 - ds.length) '0' ++ ds)

/-- The type of the root. -/
def rootType : String := "rep:root"

/-- The restrictions that every repository supports. -/
def standardRestrictions : List RestrictionDefinition :=
  [ ⟨"rep:glob", .string, false⟩, ⟨"rep:ntNames", .name, true⟩, ⟨"rep:itemNames", .name, true⟩,
    ⟨"rep:prefixes", .string, true⟩, ⟨"rep:current", .string, true⟩, ⟨"rep:globs", .string, true⟩,
    ⟨"rep:subtrees", .string, true⟩ ]

/-- A repository with nothing but a root. -/
def new (registry : Registry := Registry.standard) : Repository where
  nodes := Table.empty.insert Path.root { identifier := identifier 0, type := rootType }
  registry
  restrictions := standardRestrictions
  serial := 1

/-! ## Questions -/

/-- The node at a path. -/
def node? (r : Repository) (path : String) : Option Node := r.nodes.get? path

/-- Whether a path is a node. -/
def hasNode (r : Repository) (path : String) : Bool := r.nodes.contains path

/-- The paths of the children of a node in order; none if it is no node. -/
def children (r : Repository) (path : String) : List String :=
  match r.node? path with
  | some n => n.children.map (Path.join path)
  | none => []

/-- A property of a node. -/
def property? (r : Repository) (path name : String) : Option Property :=
  (r.node? path).bind fun n => n.properties.get? name

/-- The access-control list of a path, empty if none was stored. -/
def acl (r : Repository) (path : String) : AccessList := (r.policies.get? path).getD []

/-- The principal with a name: an authorizable, or the group of everyone. -/
def principal (r : Repository) (name : String) : Except AccessError Principal :=
  match r.authorizables.get? name with
  | some a => .ok a.principal
  | none =>
    if name = Authorizable.everyone then .ok ⟨Authorizable.everyone, .group⟩
    else .error (.principalNotFound name)

/-! ## Changes -/

/-- A change of a repository that returns a value or fails. -/
abbrev Change (α : Type) := ExceptT RepositoryError (StateM Repository) α

/-- A failure of access control as a failure of a change. -/
def Change.ofAccess {α : Type} : Except AccessError α → Change α
  | .ok a => pure a
  | .error e => throw (.access e)

/-- Changes the node at a path. -/
def changeNode (path : String) (f : Node → Node) : Change Unit := do
  match (← get).node? path with
  | none => throw (.nodeNotFound path)
  | some n => modify fun r => { r with nodes := r.nodes.insert path (f n) }

/-- Stores a new node at a path. -/
def store (path type : String) : Change Unit :=
  modify fun r =>
    { r with
      nodes := r.nodes.insert path { identifier := identifier r.serial, type := type }
      serial := r.serial + 1 }

/-- Adds a node and returns its path. -/
def addNode (parent name type : String) : Change String := do
  if !Path.isName name then throw (.invalidName name)
  let path := Path.join parent name
  if (← get).hasNode path then throw (.nodeExists path)
  changeNode parent fun n => { n with children := n.children ++ [name] }
  store path type
  return path

/-- Removes a node with all below it and their access-control lists. -/
def removeNode (path : String) : Change Unit := do
  match Path.parent? path with
  | none => throw (.invalidName path)
  | some parent =>
    if !(← get).hasNode path then throw (.nodeNotFound path)
    modify fun r =>
      { r with
        nodes := r.nodes.filter fun p _ => !Path.isWithin p path
        policies := r.policies.filter fun p _ => !Path.isWithin p path }
    changeNode parent fun n => { n with children := n.children.filter (· != Path.name path) }

/-- Adds a mixin type unless the node has the type; returns whether it was added. -/
def addMixin (path mixin : String) : Change Bool := do
  match (← get).node? path with
  | none => throw (.nodeNotFound path)
  | some n =>
    if n.hasType mixin then return false
    changeNode path fun n => { n with mixins := n.mixins ++ [mixin] }
    return true

/-- Sets a property. One that the node has keeps its place. -/
def setProperty (path name : String) (property : Property) : Change Unit :=
  changeNode path fun n => { n with properties := n.properties.insert name property }

/-- Removes a property and returns it. -/
def removeProperty (path name : String) : Change (Option Property) := do
  let old := (← get).property? path name
  changeNode path fun n => { n with properties := n.properties.erase name }
  return old

/-- Stores an authorizable. -/
def storeAuthorizable (a : Authorizable) : Change Unit :=
  modify fun r => { r with authorizables := r.authorizables.insert a.id a }

/-- Creates a user unless it exists; returns whether it was created. -/
def createUser (id : String) (password : Option String) : Change Bool := do
  match (← get).authorizables.get? id with
  | some a => if a.isGroup then throw (.groupExists id) else return false
  | none =>
    storeAuthorizable (.user id password)
    return true

/-- Creates a group unless it exists; returns whether it was created. -/
def createGroup (id : String) : Change Bool := do
  match (← get).authorizables.get? id with
  | some a => if a.isGroup then return false else throw (.userExists id)
  | none =>
    storeAuthorizable (.group id)
    return true

/-- Adds a member to a group. A member that is not known is skipped; returns whether one was
added. -/
def addMember (group member : String) : Change Bool := do
  if !(← get).authorizables.contains member then return false
  match (← get).authorizables.get? group with
  | none => throw (.authorizableNotFound group)
  | some g =>
    if !g.isGroup then throw (.authorizableNotFound group)
    if member ∈ g.members then return false
    modify fun r =>
      { r with
        authorizables := r.authorizables.insert group { g with members := g.members ++ [member] } }
    return true

/-- Sets a property of an authorizable. -/
def setAuthorizableProperty (id name : String) (value : Value) : Change Unit := do
  match (← get).authorizables.get? id with
  | none => throw (.authorizableNotFound id)
  | some a =>
    modify fun r =>
      { r with
        authorizables :=
          r.authorizables.insert id { a with properties := a.properties.insert name value } }

/-- Stores the access-control list of a node. -/
def setAcl (path : String) (acl : AccessList) : Change Unit := do
  if !(← get).hasNode path then throw (.nodeNotFound path)
  modify fun r => { r with policies := r.policies.insert path acl }

/-- Binds a grant to the registered privilege of its name. -/
def bind (registry : Registry) (g : Grant) : Except AccessError Grant := do
  let p ← registry.find g.name
  return { g with privilege := some p }

/-- The access-control list with the entries of a principal replaced by what its grants amount to.
Every privilege is looked up before anything else is done. -/
def updated (r : Repository) (acl : AccessList) (principal : String) (grants : List Grant)
    (order : Option String) : Except AccessError AccessList := do
  let p ← r.principal principal
  let grants ← grants.mapM (bind r.registry)
  let entries ← compose p grants r.registry.depths
  acl.place p.name entries order

/-- Replaces the entries of a principal on a node. -/
def updateEntries (path principal : String) (grants : List Grant) (order : Option String) :
    Change Unit := do
  if !(← get).hasNode path then throw (.nodeNotFound path)
  let r ← get
  let acl ← Change.ofAccess (r.updated (r.acl path) principal grants order)
  setAcl path acl

end Repository

end ContentImport
