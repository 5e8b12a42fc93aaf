import ContentImport.Import.Basic
import ContentImport.Proofs.Keeps

/-!
# The parts of the importer's functions

The functions of the importer are put together from few parts: a change of the repository, something
that is taken down, and the test on which they go on. For each function there is a rule here that
says which parts have to keep an invariant for the function to keep it (`keeps_openChild`,
`keeps_setWith`, `keeps_closeNode` and so on). The parts that the functions do not name
themselves have names here: `clear`, `ensure` and `enter` for opening a child, `await` for a
property that is to wait for a node, `assign` and `assignAll` for what becomes of a property that
is not kept, `settleNode` for what happens to a node once it is closed, `stamp` for the moment that
is written for a file.
-/

namespace ContentImport.Import

/-! ## Opening children -/

/-- A node that is there is removed, if existing nodes are overwritten. -/
def clear (node : String) : Step Unit := do
  if (← get).options.overwrite ∧ (← get).repository.hasNode node then
    onRepository (Repository.removeNode node)

/-- A node is added and taken down as a new one. -/
def create (parent name type : String) : Step Unit := do
  discard <| onRepository (Repository.addNode parent name type)
  recordCreated (Path.join parent name)

/-- A child that is missing is added. -/
def ensure (parent name : String) (type : Option String) : Step Unit := do
  if !(← get).repository.hasNode (Path.join parent name) then
    discard <| onRepository (Repository.addNode parent name (type.getD unstructuredType))
    recordCreated (Path.join parent name)

/-- A node becomes the current one and counts as imported. -/
def enter (node : String) : Step Unit :=
  modify fun i =>
    { i with
      imported := including i.imported node
      top := i.top.orElse fun _ => some node
      opened := node :: i.opened }

theorem openChild_eq (parent name : String) (type : Option String) (mixins : List String) :
    openChild parent name type mixins = (do
      clear (Path.join parent name)
      ensure parent name type
      addMixins (Path.join parent name) mixins
      enter (Path.join parent name)) := by
  simp only [openChild, clear, ensure, enter, bind_assoc]
  refine bind_congr fun i => bind_congr fun i' => ?_
  split
  · refine bind_congr fun _ => bind_congr fun k => ?_
    split
    · simp only [bind_assoc]
    · rfl
  · rw [pure_bind]
    refine bind_congr fun k => ?_
    split
    · simp only [bind_assoc]
    · rfl

/-! ## Setting properties -/

/-- A property is to wait for a node. -/
def await (i : Import) (target path : String) : Import :=
  { i with waiting := i.waiting.insert target ((i.waiting.get? target).getD [] ++ [path]) }

/-- The references of a list are taken down until all of their nodes are there. -/
def postpone (path : String) (standIns : List String) : Step Unit :=
  modify fun i => { i with pending := i.pending.insert path standIns }

/-- A node is to be checked in. -/
def recordVersionable (node : String) : Step Unit :=
  modify fun i => { i with versionable := including i.versionable node }

/-- What setting a property of a node to the value of a text comes to, if the node does not keep a
property that was there before. -/
def assign (node name : String) (type : ValueType) (text : String) : Step Unit := do
  if type = .reference then
    match ← lookUp node name text with
    | .ok id => write node name (.single (.reference id))
    | .error _ => return
  else if name = checkedOutName then
    if !Text.sameLetters (Text.trim text) "true" then
      modify fun i => { i with versionable := including i.versionable node }
  else
    match Value.parse type text with
    | .ok v => write node name (.single v)
    | .error e => throw (.access (.invalidValue e))

/-- What setting a property of a node to the values of texts comes to, if the node does not keep a
property that was there before. -/
def assignAll (node name : String) (type : ValueType) (texts : List String) : Step Unit := do
  if type = .reference then
    let found ← lookUpAll node name texts
    let ids := found.filterMap Except.toOption
    if ids.length < texts.length then
      modify fun i =>
        { i with pending := i.pending.insert (Path.join node name) (found.map standIn) }
    write node name (.multiple .reference (ids.map .reference))
  else
    let type := if type = .undefined then .string else type
    write node name (.multiple type (← values type texts))

/-- Sets a property of the current node in some way, unless the node keeps one that was there
before. -/
def setWith (name : String) (set : String → Step Unit) : Step Unit := do
  mention name
  let node ← current
  if keeps (← get) node name then return
  set node

theorem setProperty_eq (name : String) (type : ValueType) (text : String) :
    setProperty name type text = setWith name fun node => assign node name type text := rfl

theorem setProperties_eq (name : String) (type : ValueType) (texts : List String) :
    setProperties name type texts = setWith name fun node => assignAll node name type texts := rfl

/-! ## Closing nodes -/

/-- What is done with a node once it is no longer open. -/
def settleNode (node : String) : Step Unit := do
  if (← get).options.propertyMerge then removeUnmentioned node
  settleReferences node

theorem closeNode_eq : closeNode = (do
    match (← get).opened with
    | [] => invalid .nothingToClose
    | node :: rest =>
      modify fun i => { i with opened := rest }
      settleNode node) := rfl

/-! ## Writing files -/

/-- The moment that is written for a file. One that is not positive stands for the present. -/
def stamp (i : Import) (modified : Int) : Int := if modified ≤ 0 then i.clock else modified

/-! ## Rules -/

section Rules

variable {I : Import → Prop} {Q : String → Prop} {F : Except String String → Prop}
  {node name : String}

theorem keeps_current (hQ : ∀ node, Q node) : Keeps I current Q := by
  refine .bind .get fun i _ => ?_
  split
  · exact .pure (hQ _)
  · exact .throw _

/-- The current node is one of those that are open. -/
theorem keeps_current_of_opened (hopened : ∀ i, I i → ∀ node ∈ i.opened, Q node) :
    Keeps I current Q := by
  refine .bind .get fun i hi => ?_
  split
  · next node rest hcurrent => exact .pure (hopened i hi node (hcurrent ▸ List.mem_cons_self))
  · exact .throw _

/-! ### Properties -/

/-- A property is set only if it is not kept. -/
theorem keeps_setWith {set : String → Step Unit} (hmention : Keeps I (mention name))
    (hcurrent : Keeps I current Q)
    (hset : ∀ node, Q node → ∀ i, I i → keeps i node name = false → Keeps I (set node)) :
    Keeps I (setWith name set) := by
  refine .bind hmention fun _ _ => .bind hcurrent fun node hnode => .bind .get fun i hi => ?_
  split
  · exact .pure trivial
  · next hkeeps => exact hset node hnode i hi (Bool.eq_false_iff.2 hkeeps)

/-- A property is to wait only if the node is missing. -/
theorem keeps_lookUp {reference : String}
    (hfound : ∀ i, I i → ∀ n, i.repository.node? (Path.resolve node reference) = some n →
      F (.ok n.identifier))
    (hmissing : F (.error (Path.resolve node reference)))
    (hawait : ∀ i, I i → i.repository.node? (Path.resolve node reference) = none →
      I (i.await (Path.resolve node reference) (Path.join node name))) :
    Keeps I (lookUp node name reference) F := by
  intro i hi
  rw [lookUp, outcome_bind, outcome_get]
  cases hnode : i.repository.node? (Path.resolve node reference) with
  | some n =>
    simp only [hnode]
    exact Keeps.pure (hfound i hi n hnode) i hi
  | none =>
    simp only [hnode]
    exact ⟨hawait i hi hnode, fun found hok => Except.ok.inj hok ▸ hmissing⟩

theorem keeps_lookUpAll (hlookUp : ∀ reference, Keeps I (lookUp node name reference) F)
    (references : List String) :
    Keeps I (lookUpAll node name references) fun found => ∀ f ∈ found, F f := by
  induction references with
  | nil => exact .pure (List.forall_mem_nil _)
  | cons reference rest ih =>
    exact .bind (hlookUp reference) fun found hfound => .bind ih fun others hothers =>
      .pure (List.forall_mem_cons.2 ⟨hfound, hothers⟩)

theorem keeps_assign {type : ValueType} {text : String}
    (hlookUp : type = .reference → Keeps I (lookUp node name text) F)
    (hreference : ∀ id, F (.ok id) → Keeps I (write node name (.single (.reference id))))
    (hversionable : Keeps I (recordVersionable node))
    (hvalue : ∀ v, type ≠ .reference → name ≠ checkedOutName → Value.parse type text = .ok v →
      Keeps I (write node name (.single v))) :
    Keeps I (assign node name type text) := by
  unfold assign
  split
  · next htype =>
    refine .bind (hlookUp htype) fun found hfound => ?_
    split
    · exact hreference _ hfound
    · exact .pure trivial
  next htype =>
  split
  · split
    · exact hversionable
    · exact .pure trivial
  next hname =>
  split
  · next v hv => exact hvalue v htype hname hv
  · exact .throw _

theorem keeps_assignAll {type : ValueType} {texts : List String}
    (hlookUp : type = .reference → ∀ reference, Keeps I (lookUp node name reference) F)
    (hpostpone : type = .reference → ∀ found : List (Except String String), (∀ f ∈ found, F f) →
      Keeps I (postpone (Path.join node name) (found.map standIn)))
    (hreferences : ∀ found : List (Except String String), (∀ f ∈ found, F f) → Keeps I
      (write node name (.multiple .reference ((found.filterMap Except.toOption).map .reference))))
    (hvalues : ∀ vs, type ≠ .reference →
      texts.mapM (Value.parse (if type = .undefined then .string else type)) = .ok vs →
      Keeps I (write node name (.multiple (if type = .undefined then .string else type) vs))) :
    Keeps I (assignAll node name type texts) := by
  unfold assignAll
  split
  · next htype =>
    refine .bind (keeps_lookUpAll (hlookUp htype) texts) fun found hfound => ?_
    exact .guarded (fun _ => hpostpone htype found hfound) fun _ => hreferences found hfound
  · next htype =>
    have hparsed : Keeps I (values (if type = .undefined then .string else type) texts) fun vs =>
        texts.mapM (Value.parse (if type = .undefined then .string else type)) = .ok vs := by
      unfold values
      split
      · next vs hvs => exact .pure hvs
      · exact .throw _
    exact .bind hparsed fun vs hvs => hvalues vs htype hvs

/-! ### Nodes -/

theorem keeps_clear (hremove : ∀ i, I i → i.options.overwrite = true →
      Keeps I (onRepository (Repository.removeNode node))) : Keeps I (clear node) := by
  refine .bind .get fun i hi => .bind .get fun _ _ => ?_
  split
  · next hover => exact hremove i hi hover.1
  · exact .pure trivial

theorem keeps_ensure {parent : String} {type : Option String}
    (hcreate : ∀ type, Keeps I (create parent name type)) : Keeps I (ensure parent name type) := by
  refine .bind .get fun _ _ => ?_
  split
  · exact hcreate _
  · exact .pure trivial

theorem keeps_openChild {parent : String} {type : Option String} {mixins : List String}
    (hclear : Keeps I (clear (Path.join parent name))) (hensure : Keeps I (ensure parent name type))
    (hmixins : Keeps I (addMixins (Path.join parent name) mixins))
    (henter : Keeps I (enter (Path.join parent name))) :
    Keeps I (openChild parent name type mixins) := by
  rw [openChild_eq]
  exact hclear.bind fun _ _ => hensure.bind fun _ _ => hmixins.bind fun _ _ => henter

theorem keeps_openNode (hcurrent : Keeps I current Q) {type : Option String} {mixins : List String}
    (hchild : ∀ parent, Q parent → ∀ name, Keeps I (openChild parent name type mixins))
    (name : Option String) : Keeps I (openNode name type mixins) := by
  refine .bind hcurrent fun parent hparent => ?_
  split
  · exact hchild parent hparent _
  refine .bind .get fun i _ => .guarded (fun _ => .throw _) fun _ => .bind .get fun j _ => ?_
  split
  · exact .pure trivial
  · exact hchild parent hparent _

/-- A node is added and taken down, and then something follows. -/
theorem keeps_create_bind {β : Type} {R : β → Prop} {rest : Unit → Step β} {parent type : String}
    (hcreate : Keeps I (create parent name type)) (hrest : ∀ u, Keeps I (rest u) R) :
    Keeps I (do
      Functor.discard (onRepository (Repository.addNode parent name type))
      let u ← recordCreated (Path.join parent name)
      rest u) R := by
  rw [← bind_assoc]
  exact hcreate.bind fun u _ => hrest u

/-- Descending goes from node to node, by one name at a time. -/
theorem keeps_descend {type : Option String} (hjoin : ∀ parent, Q parent →
      ∀ name, Q (Path.join parent name))
    (hcreate : ∀ parent, Q parent → ∀ name type, Keeps I (create parent name type))
    {node : String} (hnode : Q node) (names : List String) :
    Keeps I (descend type node names) fun found => ∀ path, found = some path → Q path := by
  induction names generalizing node with
  | nil => exact .pure fun path hpath => Option.some.inj hpath ▸ hnode
  | cons name rest ih =>
    refine .bind .get fun i _ => ?_
    extract_lets descendFrom
    have hdescend : ∀ u, Keeps I (descendFrom u) fun found => ∀ path, found = some path → Q path :=
      fun _ => ih (hjoin node hnode name)
    split
    · split
      · exact .pure nofun
      · exact keeps_create_bind (hcreate node hnode name _) hdescend
    · exact hdescend ()

theorem keeps_openPath {path : String} {type : Option String} (hcurrent : Keeps I current Q)
    (hdescend : ∀ node, Q node → ∀ names, Keeps I (descend type node names)
      fun found => ∀ path, found = some path → Q path)
    (hpush : ∀ node, Q node → Keeps I (push node)) : Keeps I (openPath path type) := by
  refine .bind hcurrent fun node hnode => .bind (hdescend node hnode _) fun found hfound => ?_
  split
  · exact .pure trivial
  · exact .bind (hpush _ (hfound _ rfl)) fun _ _ => .pure trivial

/-! ### References that waited -/

theorem keeps_settledProperty {path id : String}
    (hpending : ∀ i pending, I i → I { i with pending }) :
    Keeps I (settledProperty path node id) := by
  refine .bind .get fun i _ => ?_
  split
  · exact .pure trivial
  · exact .bind (.modify fun j hj => hpending j _ hj) fun _ _ => .pure trivial

/-- The owner need not be the node that asked, since the name of a property may have slashes. -/
theorem keeps_settleProperty {path id : String} {R : Property → Prop}
    (hsettled : Keeps I (settledProperty path node id) R)
    (hset : ∀ owner, Path.parent? path = some owner → ∀ p, R p →
      Keeps I (onRepository (Repository.setProperty owner (Path.name path) p))) :
    Keeps I (settleProperty node id path) := by
  unfold settleProperty
  split
  · exact .pure trivial
  next owner howner =>
  refine .bind .get fun i _ => ?_
  split
  · exact hsettled.bind fun p hp => hset owner howner p hp
  · exact .pure trivial

theorem keeps_settleReferences (herase : ∀ i, I i → I { i with waiting := i.waiting.erase node })
    (hsettle : ∀ i, I i → ∀ paths, i.waiting.get? node = some paths → ∀ path ∈ paths,
      ∀ j, I j → ∀ n, j.repository.node? node = some n →
        Keeps I (settleProperty node n.identifier path)) :
    Keeps I (settleReferences node) := by
  refine .bind .get fun i hi => ?_
  split
  · exact .pure trivial
  next paths hpaths =>
  refine .bind (.modify herase) fun _ _ => .bind .get fun j hj => ?_
  split
  · exact .pure trivial
  · next n hn => exact .forM fun path hpath => hsettle i hi paths hpaths path hpath j hj n hn

theorem keeps_settleNode (hremove : ∀ i, I i → i.options.propertyMerge = true →
      Keeps I (removeUnmentioned node))
    (hsettle : Keeps I (settleReferences node)) : Keeps I (settleNode node) :=
  .bind .get fun i hi => .guarded (fun hmerge => hremove i hi hmerge) fun _ => hsettle

theorem keeps_closeNode (hclose : ∀ i, I i → ∀ node rest, i.opened = node :: rest →
      (∀ j, I j → I { j with opened := rest }) ∧ Keeps I (settleNode node)) :
    Keeps I closeNode := by
  rw [closeNode_eq]
  refine .bind .get fun i hi => ?_
  split
  · exact .throw _
  next node rest hopened =>
  obtain ⟨hpop, hsettle⟩ := hclose i hi node rest hopened
  exact .bind (.modify hpop) fun _ _ => hsettle

/-! ### Files -/

theorem keeps_setFileProperty {v : Value}
    (hcurrent : Keeps I current fun node => Keeps I (write node name (.single v)))
    (hmention : Keeps I (mention name)) : Keeps I (setFileProperty name v) :=
  .bind hcurrent fun _ hwrite => .bind hwrite fun _ _ => hmention

theorem keeps_writeContent {file name : String} {data : Except FileError Bytes}
    {mediaType : Option String} {modified : Int}
    (hmediaType : ∀ text, Keeps I (setFileProperty mediaTypeName (.string text)))
    (hmodified : ∀ i, I i → ∀ text, Timestamp.render? (i.stamp modified) = some text →
      Keeps I (setFileProperty modifiedName (.date text)))
    (hdata : ∀ bytes, Keeps I (setFileProperty dataName (.binary bytes))) :
    Keeps I (writeContent file name data mediaType modified) := by
  refine .bind .get fun i hi => ?_
  extract_lets
  split
  · exact .throw _
  refine .bind (hmediaType _) fun _ _ => ?_
  split
  · exact .throw _
  · next text htext => exact .bind (hmodified i hi text htext) fun _ _ => hdata _

theorem keeps_openStoredFile {file : String} {modified : Int}
    (hcreate : Keeps I (create file contentName resourceType)) (hfile : Keeps I (push file))
    (hcontent : Keeps I (push (Path.join file contentName))) :
    Keeps I (openStoredFile file modified) := by
  refine .bind .get fun i _ => ?_
  extract_lets openBoth
  have hopen : ∀ u, Keeps I (openBoth u) := fun _ => hfile.bind fun _ _ =>
    hcontent.bind fun _ _ => .bind .get fun _ _ => .pure trivial
  split
  · exact keeps_create_bind hcreate hopen
  · exact hopen ()

theorem keeps_openFile {name : String} {data : Except FileError Bytes} {mediaType : Option String}
    {modified : Int} (hcurrent : Keeps I current Q)
    (hstored : ∀ parent, Q parent →
      Keeps I (openStoredFile (Path.join parent (Text.afterLast '/' name)) modified))
    (hopen : ∀ name type, Keeps I (openNode name type []))
    (hwrite : ∀ file name, Keeps I (writeContent file name data mediaType modified)) :
    Keeps I (openFile name data mediaType modified) := by
  refine .bind hcurrent fun parent hparent => .bind .get fun i _ => ?_
  split
  · refine .bind (hstored parent hparent) fun replaces _ => ?_
    split
    · exact hwrite _ _
    · exact .pure trivial
  · exact .bind (hopen _ _) fun _ _ => .bind (hopen _ _) fun _ _ => hwrite _ _

/-! ### The end of a document -/

theorem keeps_finish (hmerge : ∀ i, I i → i.options.merge = true →
      ∀ path, Keeps I (removeQuietly path)) : Keeps I finish := by
  refine .bind .get fun i hi => ?_
  split
  · next hoption =>
    have hothers : ∀ paths, Keeps I (removeOthers paths) :=
      fun paths => .bind .get fun j _ => .forM fun path _ => hmerge i hi hoption path
    exact .bind .get fun j _ => .bind (hothers _) fun _ _ => .bind .get fun k _ => hothers _
  · exact .pure trivial

end Rules

end ContentImport.Import
