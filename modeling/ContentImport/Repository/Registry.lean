import ContentImport.Access.Composition

/-!
# The privilege registry

A registry holds privileges by name and the aggregate at the top of their hierarchy.

* `Registry.ofDefinitions` builds one from definitions. Every aggregate has to be defined, and
  containment must not go round in a circle.
* `Registry.standard` is the built-in hierarchy.
-/

namespace ContentImport

/-- A privilege as it is defined: the names of the privileges that it contains. -/
structure PrivilegeDefinition where
  name : String
  aggregates : List String := []
  isAbstract : Bool := false

/-- Registered privileges and the root of the hierarchy. -/
structure Registry where
  privileges : Table Privilege
  root : Privilege

namespace Registry

/-- The name of the built-in root. -/
def standardRoot : String := "jcr:all"

/-! ## Building -/

/-- Definitions by name, the last of those with one name counting. -/
abbrev Definitions := Table PrivilegeDefinition

/-- Builds the privileges with the given names one after the other for a privilege that contains
them. -/
def buildEach (definitions : Definitions) (container : String)
    (build : Table Privilege → PrivilegeDefinition →
      Except AccessError (Privilege × Table Privilege)) :
    List String → Table Privilege → Except AccessError (List Privilege × Table Privilege)
  | [], built => .ok ([], built)
  | name :: r, built =>
    match definitions.get? name with
    | none => .error (.unknownAggregate container name)
    | some d => do
      let (p, built) ← build built d
      let (ps, built) ← buildEach definitions container build r built
      return (p :: ps, built)

/-- Builds a privilege and what it contains, given the names of the privileges that are being
built around it and the privileges that are built. -/
def build (definitions : Definitions) :
    Nat → List String → Table Privilege → PrivilegeDefinition →
      Except AccessError (Privilege × Table Privilege)
  | 0, _, _, d => .error (.privilegeCycle d.name)
  | fuel + 1, around, built, d =>
    match built.get? d.name with
    | some p => .ok (p, built)
    | none =>
      if d.name ∈ around then .error (.privilegeCycle d.name)
      else do
        let (parts, built) ←
          buildEach definitions d.name (build definitions fuel (d.name :: around)) d.aggregates
            built
        let p := Privilege.mk d.name d.isAbstract parts
        return (p, built.insert d.name p)

/-- The registry of definitions below a root. At most as many privileges are built around one
another as there are definitions. -/
def ofDefinitions (root : String) (definitions : List PrivilegeDefinition) :
    Except AccessError Registry := do
  let byName : Definitions := Table.ofList (definitions.map fun d => (d.name, d))
  let built ← definitions.foldlM (fun built d => do
    let (_, built) ← build byName (definitions.length + 1) [] built d
    return built) Table.empty
  match built.get? root with
  | none => .error (.privilegeNotFound root)
  | some p =>
    let rows := definitions.filterMap fun d => (built.get? d.name).map fun p => (d.name, p)
    return { privileges := Table.ofList rows, root := p }

/-! ## The built-in hierarchy -/

/-- The built-in root privilege. -/
def standardHierarchy : Privilege :=
  let aggregate (name : String) (parts : List Privilege) := Privilege.mk name false parts
  let leaf := Privilege.leaf
  let read := aggregate "jcr:read" [leaf "rep:readNodes", leaf "rep:readProperties"]
  let modifyProperties := aggregate "jcr:modifyProperties"
    [leaf "rep:addProperties", leaf "rep:alterProperties", leaf "rep:removeProperties"]
  let write := aggregate "jcr:write"
    [modifyProperties, leaf "jcr:addChildNodes", leaf "jcr:removeNode", leaf "jcr:removeChildNodes"]
  let nodeTypeManagement := leaf "jcr:nodeTypeManagement"
  aggregate standardRoot
    [ read, write, aggregate "rep:write" [write, nodeTypeManagement], nodeTypeManagement,
      leaf "jcr:readAccessControl", leaf "jcr:modifyAccessControl", leaf "jcr:lockManagement",
      leaf "jcr:versionManagement", leaf "jcr:retentionManagement", leaf "jcr:lifecycleManagement",
      leaf "jcr:workspaceManagement", leaf "jcr:nodeTypeDefinitionManagement",
      leaf "jcr:namespaceManagement", leaf "rep:privilegeManagement", leaf "rep:userManagement",
      leaf "rep:indexDefinitionManagement" ]

mutual

/-- Collects a privilege and what it contains, each at its first mention. -/
def collect (known : Table Privilege) : Privilege → Table Privilege
  | .mk name isAbstract aggregates =>
    if known.contains name then known
    else collectAll (known.insert name (.mk name isAbstract aggregates)) aggregates

/-- Collects several privileges. -/
def collectAll (known : Table Privilege) : List Privilege → Table Privilege
  | [] => known
  | p :: r => collectAll (collect known p) r

end

/-- The built-in registry. -/
def standard : Registry where
  privileges := collect Table.empty standardHierarchy
  root := standardHierarchy

/-! ## Use -/

/-- The registered privilege of a name. -/
def find (r : Registry) (name : String) : Except AccessError Privilege :=
  match r.privileges.get? name with
  | some p => .ok p
  | none => .error (.privilegeNotFound name)

/-- The depths below the root. -/
def depths (r : Registry) : DepthMap := DepthMap.build r.root

/-- Whether a row of depths stands before another: less deep, or as deep with a smaller name. -/
def rowLe (s t : String × Nat) : Bool := s.2 < t.2 || (s.2 == t.2 && s.1 ≤ t.1)

/-- The privileges below the root with their depths, sorted by depth and then by name. -/
def depthRows (r : Registry) : List (Nat × Privilege) :=
  (Composition.sortByKey id rowLe r.depths.rows).filterMap fun row =>
    (r.privileges.get? row.1).map fun p => (row.2, p)

end Registry

end ContentImport
