import ContentImport.Import.Call
import ContentImport.Import.MediaType

/-!
# The importer

An importer carries out the calls of a document on a repository. It keeps a stack of open nodes;
a call acts on the node on top. Its options say what it does with nodes and properties that are
there already.

* `Import.prepare` begins a document below a target.
* `Import.perform` carries out one call, and `Import.finish` ends the document.
* A reference to a node that is not there waits until that node is closed
  (`Import.settleReferences`).
-/

namespace ContentImport

/-! ## Options and state -/

/-- The options of an import. All are off by default. -/
structure ImportOptions where
  /-- Replace existing nodes instead of using them. -/
  overwrite : Bool := false
  /-- Replace properties that were there before the import. -/
  propertyOverwrite : Bool := false
  /-- Remove the properties of imported nodes that the content does not mention. -/
  propertyMerge : Bool := false
  /-- Remove siblings and children of imported nodes that the content does not mention. -/
  merge : Bool := false
  /-- The file extensions that are not read. -/
  ignored : List String := []
  deriving DecidableEq

/-- Whether a file extension is not read. Dots before an ignored extension do not count. -/
def ImportOptions.ignores (o : ImportOptions) (extension : String) : Bool :=
  o.ignored.any fun e => Text.sameLetters (Text.dropStart '.' e) extension

/-- The state of an import. -/
structure Import where
  repository : Repository
  options : ImportOptions
  /-- The present moment. -/
  clock : Int
  /-- The open nodes, the current one first. -/
  opened : List String := []
  /-- The name of the top node of the document, if it is not the target itself. -/
  defaultName : Option String := none
  /-- The first node that was opened by name. -/
  top : Option String := none
  /-- The nodes that were not there before, in the order of their creation. -/
  created : List String := []
  /-- The nodes that were opened by name, in order. -/
  imported : List String := []
  /-- The names of the properties that the content mentions. -/
  mentioned : List String := []
  /-- The paths of the properties that were written. -/
  written : List String := []
  /-- The paths of the properties that wait for a node, by the path of the node. -/
  waiting : Table (List String) := Table.empty
  /-- The identifiers, or the paths of missing nodes, of the lists of references that wait. -/
  pending : Table (List String) := Table.empty
  /-- The nodes whose content asks to check them in. -/
  versionable : List String := []

namespace Import

/-! ## Names -/

def unstructuredType : String := "nt:unstructured"
def fileType : String := "nt:file"
def folderType : String := "nt:folder"
def resourceType : String := "nt:resource"

/-- The child of a file node that holds its content. -/
def contentName : String := "jcr:content"

def dataName : String := "jcr:data"
def modifiedName : String := "jcr:lastModified"
def mediaTypeName : String := "jcr:mimeType"

/-- The property that asks to check a node in and is never written. -/
def checkedOutName : String := "jcr:isCheckedOut"

/-- Properties that merging does not remove. -/
def protectedNames : List String :=
  [ "jcr:uuid", "jcr:created", "jcr:createdBy", "jcr:baseVersion", "jcr:predecessors",
    "jcr:successors", "jcr:versionHistory", "jcr:isCheckedOut" ]

/-! ## Steps -/

/-- A step of an import that returns a value or fails. -/
abbrev Step (α : Type) := ExceptT ImportError (StateM Import) α

/-- Fails because of the content. -/
def invalid {α : Type} (fault : ContentFault) : Step α := throw (.invalid fault)

/-- A change of the repository, its failure being reported as `wrap` says. -/
def onRepositoryWith {α : Type} (wrap : RepositoryError → ImportError)
    (change : Repository.Change α) : Step α := do
  let (result, r) := change.run.run (← get).repository
  modify fun i => { i with repository := r }
  match result with
  | .ok a => return a
  | .error e => throw (wrap e)

/-- A change of the repository. -/
def onRepository {α : Type} (change : Repository.Change α) : Step α :=
  onRepositoryWith .repository change

/-- A list with an element that may be in it. -/
def including (l : List String) (a : String) : List String := if a ∈ l then l else l ++ [a]

/-- The path of the current node. -/
def current : Step String := do
  match (← get).opened with
  | path :: _ => return path
  | [] => invalid .noOpenNode

/-- Makes a node the current one. -/
def push (path : String) : Step Unit := modify fun i => { i with opened := path :: i.opened }

/-- Records that the content mentions a property. -/
def mention (name : String) : Step Unit :=
  modify fun i => { i with mentioned := including i.mentioned name }

/-- Records that a node was created. -/
def recordCreated (path : String) : Step Unit :=
  modify fun i => { i with created := i.created ++ [path] }

/-- Begins a document below a target. With a default name the top node of the document is a child
of the target, without one it is the target itself. -/
def prepare (target : String) (defaultName : Option String) : Step Unit := do
  if !(← get).repository.hasNode target then throw (.repository (.nodeNotFound target))
  modify fun i => { i with opened := [target], defaultName, top := none }

/-! ## Properties -/

/-- Whether a property was there before the import and is to stay. -/
def keeps (i : Import) (node name : String) : Bool :=
  (i.repository.property? node name).isSome && !i.options.propertyOverwrite &&
    !i.written.contains (Path.join node name)

/-- Writes a property. -/
def write (node name : String) (property : Property) : Step Unit := do
  onRepository (Repository.setProperty node name property)
  modify fun i => { i with written := including i.written (Path.join node name) }

/-- The identifier of the node to which a reference of a property leads, or else the path at which
that node is missing. The property then waits for it. -/
def lookUp (node name reference : String) : Step (Except String String) := do
  let target := Path.resolve node reference
  match (← get).repository.node? target with
  | some n => return .ok n.identifier
  | none =>
    modify fun i =>
      { i with
        waiting :=
          i.waiting.insert target ((i.waiting.get? target).getD [] ++ [Path.join node name]) }
    return .error target

/-- Looks up several references. -/
def lookUpAll (node name : String) : List String → Step (List (Except String String))
  | [] => return []
  | reference :: r => do
    let found ← lookUp node name reference
    let rest ← lookUpAll node name r
    return found :: rest

/-- The text that stands for a looked-up reference: an identifier or a path. -/
def standIn : Except String String → String
  | .ok id => id
  | .error path => path

/-- Sets a property of the current node to the value of a text. -/
def setProperty (name : String) (type : ValueType) (text : String) : Step Unit := do
  mention name
  let node ← current
  if keeps (← get) node name then return
  if type = .reference then
    match ← lookUp node name text with
    | .ok id => write node name (.single (.reference id))
    | .error _ => return
  else if name = checkedOutName then
    if !Text.sameLetters (Text.trim text) "true" then
      modify fun i => { i with versionable := including i.versionable node }
  else
    match Value.parse type text with
    | .ok v => write node name (.single v)
    | .error e => throw (.access (.invalidValue e))

/-- The values of texts. -/
def values (type : ValueType) (texts : List String) : Step (List Value) :=
  match texts.mapM (Value.parse type) with
  | .ok vs => return vs
  | .error e => throw (.access (.invalidValue e))

/-- Sets a property of the current node to the values of texts. -/
def setProperties (name : String) (type : ValueType) (texts : List String) : Step Unit := do
  mention name
  let node ← current
  if keeps (← get) node name then return
  if type = .reference then
    let found ← lookUpAll node name texts
    let ids := found.filterMap Except.toOption
    if ids.length < texts.length then
      modify fun i =>
        { i with pending := i.pending.insert (Path.join node name) (found.map standIn) }
    write node name (.multiple .reference (ids.map .reference))
  else
    let type := if type = .undefined then .string else type
    write node name (.multiple type (← values type texts))

/-! ## Nodes -/

/-- Removes the properties of a node that the content does not mention. -/
def removeUnmentioned (node : String) : Step Unit := do
  let i ← get
  match i.repository.node? node with
  | none => return
  | some n =>
    (n.properties.keys.filter fun name =>
      !i.mentioned.contains name && !protectedNames.contains name).forM fun name =>
        discard <| onRepository (Repository.removeProperty node name)

/-- The stand-ins of a list of references once a node has an identifier. -/
def settle (node id : String) (standIns : List String) : List String :=
  standIns.map fun s => if s = node then id else s

/-- The property that was waiting for a node, now that the node has an identifier. -/
def settledProperty (path node id : String) : Step Property := do
  match (← get).pending.get? path with
  | none => return .single (.reference id)
  | some standIns =>
    let settled := settle node id standIns
    let ids := settled.filter fun s => !Text.startsWith "/" s
    modify fun i =>
      { i with
        pending :=
          if ids.length = settled.length then i.pending.erase path
          else i.pending.insert path settled }
    return .multiple .reference (ids.map .reference)

/-- Writes a property that was waiting for a node. -/
def settleProperty (node id path : String) : Step Unit := do
  match Path.parent? path with
  | none => return
  | some owner =>
    if (← get).repository.hasNode owner then
      let property ← settledProperty path node id
      onRepository (Repository.setProperty owner (Path.name path) property)

/-- Writes the properties that were waiting for a node. -/
def settleReferences (node : String) : Step Unit := do
  match (← get).waiting.get? node with
  | none => return
  | some paths =>
    modify fun i => { i with waiting := i.waiting.erase node }
    match (← get).repository.node? node with
    | none => return
    | some n => paths.forM (settleProperty node n.identifier)

/-- Adds mixin types to a node. -/
def addMixins (node : String) (mixins : List String) : Step Unit :=
  mixins.forM fun m => discard <| onRepository (Repository.addMixin node m)

/-- Opens a child of the current node by name, and creates it if it is missing. -/
def openChild (parent name : String) (type : Option String) (mixins : List String) :
    Step Unit := do
  let node := Path.join parent name
  if (← get).options.overwrite ∧ (← get).repository.hasNode node then
    onRepository (Repository.removeNode node)
  if !(← get).repository.hasNode node then
    discard <| onRepository (Repository.addNode parent name (type.getD unstructuredType))
    recordCreated node
  addMixins node mixins
  modify fun i =>
    { i with
      imported := including i.imported node
      top := i.top.orElse fun _ => some node
      opened := node :: i.opened }

/-- Opens a node. The top node of a document need not have a name, and it is open already if it is
the target. -/
def openNode (name : Option String) (type : Option String) (mixins : List String) : Step Unit := do
  let parent ← current
  match name with
  | some name => openChild parent name type mixins
  | none =>
    if 1 < (← get).opened.length then invalid .namelessNode
    match (← get).defaultName with
    | none => return
    | some name => openChild parent name type mixins

/-- Closes the current node. -/
def closeNode : Step Unit := do
  match (← get).opened with
  | [] => invalid .nothingToClose
  | node :: rest =>
    modify fun i => { i with opened := rest }
    if (← get).options.propertyMerge then removeUnmentioned node
    settleReferences node

/-- Opens the nodes on a path below a node, and creates those that are missing if there is a type
for them; returns the last one, or none if one is missing. -/
def descend (type : Option String) : String → List String → Step (Option String)
  | node, [] => return some node
  | node, name :: r => do
    let next := Path.join node name
    if !(← get).repository.hasNode next then
      match type with
      | none => return none
      | some type =>
        discard <| onRepository (Repository.addNode node name type)
        recordCreated next
    descend type next r

/-- Opens the node at a path below the current one; returns whether there is one. -/
def openPath (path : String) (type : Option String) : Step Bool := do
  let node ← current
  match ← descend type node ((Text.split '/' path).filter (· != "")) with
  | none => return false
  | some node =>
    push node
    return true

/-! ## Files -/

/-- Writes a property of the current node whether or not there is one. -/
def setFileProperty (name : String) (v : Value) : Step Unit := do
  let node ← current
  write node name (.single v)
  mention name

/-- The moment of last modification that a content node has; zero if it has none. -/
def storedModified (r : Repository) (content : String) : Int :=
  match (r.property? content modifiedName).bind Property.value? with
  | some (.date text) => (Timestamp.read? text).getD 0
  | _ => 0

/-- Opens a file node that is there and its content, which may be missing; returns whether the
content is to be replaced. It is unless it is as new and nodes are not overwritten. -/
def openStoredFile (file : String) (modified : Int) : Step Bool := do
  let content := Path.join file contentName
  if !(← get).repository.hasNode content then
    discard <| onRepository (Repository.addNode file contentName resourceType)
    recordCreated content
  push file
  push content
  let i ← get
  return i.options.overwrite || decide (storedModified i.repository content < modified)

/-- Writes the media type, the moment of last modification and the data of a file into the current
node. A moment that is not positive stands for the present. -/
def writeContent (file name : String) (data : Except FileError Bytes) (mediaType : Option String)
    (modified : Int) : Step Unit := do
  let mediaType := mediaType.getD (MediaType.ofName name)
  let clock := (← get).clock
  let modified := if modified ≤ 0 then clock else modified
  match data with
  | .error e => throw (.file file e)
  | .ok bytes =>
    setFileProperty mediaTypeName (.string mediaType)
    match Timestamp.render? modified with
    | none => invalid (.momentOutOfRange modified)
    | some text =>
      setFileProperty modifiedName (.date text)
      setFileProperty dataName (.binary bytes)

/-- Opens a file node and its content node. Of a name with slashes the last part counts. -/
def openFile (name : String) (data : Except FileError Bytes) (mediaType : Option String)
    (modified : Int) : Step Unit := do
  let name := Text.afterLast '/' name
  let parent ← current
  let file := Path.join parent name
  if (← get).repository.hasNode file then
    if ← openStoredFile file modified then writeContent file name data mediaType modified
  else
    openNode (some name) (some fileType) []
    openNode (some contentName) (some resourceType) []
    writeContent file name data mediaType modified

/-! ## Principals and entries -/

/-- Sets properties of an authorizable. -/
def setExtra (name : String) (extra : Table Value) : Step Unit :=
  extra.rows.forM fun row => onRepository (Repository.setAuthorizableProperty name row.1 row.2)

/-- Creates a user unless it exists, and sets its properties. -/
def createUser (name : String) (password : Option String) (extra : Table Value) : Step Unit := do
  discard <| onRepository (Repository.createUser name password)
  setExtra name extra

/-- Creates a group unless it exists, and adds its members and sets its properties. -/
def createGroup (name : String) (members : List String) (extra : Table Value) : Step Unit := do
  discard <| onRepository (Repository.createGroup name)
  members.forM fun m => discard <| onRepository (Repository.addMember name m)
  setExtra name extra

/-- Replaces the entries of a principal on the current node. -/
def setEntries (principal : String) (grants : List Grant) (order : Option String) : Step Unit := do
  let path ← current
  match (← get).repository.principal principal with
  | .error e => throw (.access e)
  | .ok _ =>
    onRepositoryWith (.entries path) (Repository.updateEntries path principal grants order)

/-! ## Documents -/

/-- Carries out a call. -/
def perform : Call → Step Unit
  | .openNode name type mixins => openNode name type mixins
  | .closeNode => closeNode
  | .setProperty name type text => setProperty name type text
  | .setProperties name type texts => setProperties name type texts
  | .openFile name data mediaType modified => openFile name data mediaType modified
  | .openPath path type => discard <| openPath path type
  | .createUser name password extra => createUser name password extra
  | .createGroup name members extra => createGroup name members extra
  | .setEntries principal grants order => setEntries principal grants order

/-- Removes a node if it is there and can be removed. -/
def removeQuietly (path : String) : Step Unit :=
  modify fun i =>
    if i.repository.hasNode path then
      { i with repository := ((Repository.removeNode path).run.run i.repository).2 }
    else i

/-- The other children of the parents of imported nodes. -/
def peers (i : Import) : List String :=
  i.imported.flatMap fun node =>
    match Path.parent? node with
    | some parent => (i.repository.children parent).filter (· != node)
    | none => []

/-- The children of imported nodes. -/
def offspring (i : Import) : List String := i.imported.flatMap i.repository.children

/-- Removes the nodes of a list that were not imported. -/
def removeOthers (paths : List String) : Step Unit := do
  let i ← get
  (paths.filter fun p => !i.imported.contains p).forM removeQuietly

/-- Ends a document: merging removes first the siblings and then the children of imported nodes
that were not imported. -/
def finish : Step Unit := do
  if (← get).options.merge then
    removeOthers (peers (← get))
    removeOthers (offspring (← get))

/-- Carries out a script. -/
def run {α : Type} (s : Script α) : Step α := do
  s.calls.forM perform
  match s.result with
  | .ok a => return a
  | .error e => throw e

end Import

end ContentImport
