import ContentImport.Proofs.Import.Reference

/-!
# Properties that are there before an import

An import whose options leave alone what is there (`ImportOptions.IsAdditive`) sets a property of a
node only if the node does not have it, or if the import wrote it itself. It knows the properties
that it wrote, and those that wait for a node, by path alone. So a property survives
(`property?_session`) unless another one has its path, or one that waits has a path that is taken
apart into its node and its name (`HasOwnPath`). Neither happens if no property is set under a name
with a slash (`hasOwnPath_of_noSlash`); with such names both do (`property?_overwritten`).

Calls for files are left out. They write the content of a file whether or not it is there.
-/

namespace ContentImport.Import

variable {options : ImportOptions} {clock : Int} {r : Repository} {target owner name : String}
  {top : Option String} {actions : List Action} {p : Property} {isSet : Prop} {i : Import}

/-! ## Operations that spare a property -/

/-- An operation neither sets nor removes a property, and removes no node. -/
def SparesProperty (owner name : String) : Repository.Operation → Prop
  | .removeNode _ | .removeProperty _ _ => False
  | .setProperty node other _ => (node, other) ≠ (owner, name)
  | _ => True

theorem property?_after {op : Repository.Operation} (hop : SparesProperty owner name op)
    (hp : r.property? owner name = some p) : (op.after r).property? owner name = some p := by
  have hinsert : ∀ {q : String} {n n' : Node}, r.node? q = some n →
      n'.properties.get? name = n.properties.get? name →
      ((r.nodes.insert q n').get? owner).bind (fun n => n.properties.get? name) = some p := by
    intro q n n' hn hsame
    rw [Table.get?_insert]
    split
    · next hq =>
      rw [Repository.property?, ← hq, hn, Option.bind_some] at hp
      rw [Option.bind_some, hsame, hp]
    · exact hp
  have hstep := op.step r
  generalize op.after r = r' at hstep
  cases hstep with
  | @addNode _ _ _ n _ hnew hparent =>
    rw [Repository.property?, Repository.node?, Table.get?_insert]
    split
    · next hq =>
      rw [Repository.property?, ← hq] at hp
      obtain ⟨n, hn, -⟩ := Option.bind_eq_some_iff.1 hp
      rw [Repository.hasNode_of_node? hn] at hnew
      cases hnew
    · exact hinsert hparent rfl
  | removeNode | removeOrphan | removeProperty => cases hop
  | addMixin hn => exact hinsert hn rfl
  | @setProperty node other n hn property =>
    rw [Repository.property?, Repository.node?, Table.get?_insert]
    split
    · next hq =>
      have hother : other ≠ name := fun heq => hop (by rw [hq, heq])
      rw [Repository.property?, ← hq, hn, Option.bind_some] at hp
      rw [Option.bind_some, Table.get?_insert, if_neg hother, hp]
    · exact hp
  | _ => exact hp

/-! ## Retained properties -/

/-- A property is there and was not written, if it is set at all, and no path that waits stands for
it. -/
structure Retains (owner name : String) (p : Property) (isSet : Prop) (i : Import) : Prop where
  options : i.options.IsAdditive
  property : i.repository.property? owner name = some p
  written : isSet → Path.join owner name ∉ i.written
  waits : ∀ node, i.waits owner name node = []

theorem isKeptBy_retains : IsKeptBy (SparesProperty owner name) (Retains owner name p isSet) where
  principals := by
    intro op hop
    cases op <;> trivial
  operation := fun _ hop _ h => ⟨h.options, property?_after hop h.property, h.written, h.waits⟩
  notes := fun _ _ _ _ h => ⟨h.options, h.property, h.written, h.waits⟩

/-- A property that is set is kept, since it was not written. -/
theorem Retains.keeps_eq_true (h : Retains owner name p isSet i) (hset : isSet) :
    keeps i owner name = true := by
  have hwritten : i.written.contains (Path.join owner name) = false := by
    simpa using h.written hset
  rw [keeps, h.property, h.options.propertyOverwrite, hwritten]
  rfl

/-! ## Other properties -/

section Other

variable {node other : String} (hne : (node, other) ≠ (owner, name))

include hne

theorem retains_write (hpath : isSet → Path.join node other ≠ Path.join owner name)
    (property : Property) :
    Keeps (Retains owner name p isSet) (write node other property) := by
  refine (isKeptBy_retains.onRepository (.setProperty node other property) hne fun _ => rfl).bind
    fun _ _ => .modify fun i h => ⟨h.options, h.property, fun hset hmem => ?_, h.waits⟩
  rcases mem_including hmem with hmem | heq
  · exact h.written hset hmem
  · exact hpath hset heq.symm

omit hne in
theorem retains_lookUp (hother : standsFor owner name (Path.join node other) = false)
    (reference : String) :
    Keeps (Retains owner name p isSet) (lookUp node other reference) := by
  refine keeps_lookUp (fun _ _ _ _ => trivial) trivial fun i h _ => ?_
  exact ⟨h.options, h.property, h.written, fun q => (waits_await hother _ q).trans (h.waits q)⟩

variable (hpath : isSet → Path.join node other ≠ Path.join owner name) {type : ValueType}
  (hreference : type = .reference → standsFor owner name (Path.join node other) = false)

include hpath hreference

theorem retains_assign (text : String) :
    Keeps (Retains owner name p isSet) (assign node other type text) :=
  keeps_assign (fun htype => retains_lookUp (hreference htype) text)
    (fun _ _ => retains_write hne hpath _) (isKeptBy_retains.recordVersionable node)
    fun _ _ _ _ => retains_write hne hpath _

theorem retains_assignAll (texts : List String) :
    Keeps (Retains owner name p isSet) (assignAll node other type texts) :=
  keeps_assignAll (fun htype => retains_lookUp (hreference htype))
    (fun _ _ _ => .modify fun _ h => ⟨h.options, h.property, h.written, h.waits⟩)
    (fun _ _ => retains_write hne hpath _) fun _ _ _ => retains_write hne hpath _

end Other

/-- The property itself is kept, and any other one may be set. -/
theorem retains_setWith {other : String} {set : String → Step Unit}
    (h : Retains owner name p isSet i)
    (hself : (owner, name) ∈ (i.opened.head?.map (·, other)).toList → isSet)
    (hset : ∀ node, (node, other) ∈ (i.opened.head?.map (·, other)).toList →
      (node, other) ≠ (owner, name) → Keeps (Retains owner name p isSet) (set node)) :
    Retains owner name p isSet (outcome (setWith other set) i).2 := by
  have hmention := (isKeptBy_retains.mention other i h).1
  cases hopened : i.opened with
  | nil =>
    rw [outcome_setWith_of_nil hopened]
    exact hmention
  | cons node rest =>
    rw [hopened] at hself hset
    rw [outcome_setWith hopened]
    split
    · exact hmention
    · next hkeeps =>
      have hne : (node, other) ≠ (owner, name) := by
        rintro heq
        obtain ⟨rfl, rfl⟩ := Prod.mk.inj heq
        exact hkeeps (h.keeps_eq_true (hself (by simp)))
      exact (hset node (by simp) hne _ hmention).1

theorem retains_closeNode : Keeps (Retains owner name p isSet) closeNode := by
  refine keeps_closeNode fun _ _ node rest _ =>
    ⟨fun _ h => ⟨h.options, h.property, h.written, h.waits⟩, keeps_settleNode ?_ ?_⟩
  · intro i h hmerge
    rw [h.options.propertyMerge] at hmerge
    cases hmerge
  refine keeps_settleReferences (fun i h => ?_) fun i h paths hpaths path hpath _ _ _ _ => ?_
  · refine ⟨h.options, h.property, h.written, fun q => ?_⟩
    rw [waits, Table.get?_erase]
    split
    · rfl
    · exact h.waits q
  · have hother : standsFor owner name path = false := by
      have hwaits := h.waits node
      rw [waits, hpaths] at hwaits
      simpa using List.filter_eq_nil_iff.1 hwaits path hpath
    refine keeps_settleProperty
      (keeps_settledProperty fun _ _ h => ⟨h.options, h.property, h.written, h.waits⟩)
      fun owner' howner' property _ => isKeptBy_retains.onRepository
        (.setProperty owner' (Path.name path) property) (fun heq => ?_) fun _ => rfl
    obtain ⟨rfl, rfl⟩ := Prod.mk.inj heq
    simp [standsFor, howner'] at hother

/-! ## Nodes -/

theorem retains_create (parent child type : String) :
    Keeps (Retains owner name p isSet) (create parent child type) :=
  (isKeptBy_retains.discard (.addNode parent child type) trivial rfl).bind fun _ _ =>
    .modify fun _ h => ⟨h.options, h.property, h.written, h.waits⟩

/-- It does not matter which nodes are open. -/
theorem Retains.enter (h : Retains owner name p isSet i) (opened imported : List String)
    (top : Option String) : Retains owner name p isSet { i with opened, imported, top } :=
  ⟨h.options, h.property, h.written, h.waits⟩

theorem retains_openNode (child type : Option String) (mixins : List String) :
    Keeps (Retains owner name p isSet) (openNode child type mixins) := by
  refine isKeptBy_retains.openNode (fun _ _ _ _ h => h.enter _ _ _) retains_create
    (fun _ _ => trivial) (fun i h hover => ?_) child type mixins
  rw [h.options.overwrite] at hover
  cases hover

theorem retains_openPath (path : String) (type : Option String) :
    Keeps (Retains owner name p isSet) (openPath path type) :=
  IsKeptUnder.openPath (fun _ _ _ _ h => h.enter _ _ _) retains_create path type

/-! ## Sessions -/

/-- An action opens no file. -/
def Action.OpensNoFile : Action → Prop
  | .call (.openFile _ _ _ _) => False
  | _ => True

/-- **An action retains a property** whose path is not mistaken for that of another one which the
action sets. -/
theorem Retains.after (h : Retains owner name p isSet i) {a : Action} (hfile : a.OpensNoFile)
    (hself : (owner, name) ∈ i.declared a → isSet)
    (hpath : ∀ q ∈ i.declared a, q ≠ (owner, name) → isSet →
      Path.join q.1 q.2 ≠ Path.join owner name)
    (hreference : ∀ q ∈ i.references a, q ≠ (owner, name) →
      standsFor owner name (Path.join q.1 q.2) = false) :
    Retains owner name p isSet (i.after a) := by
  cases a with
  | wait => exact ⟨h.options, h.property, h.written, h.waits⟩
  | finish =>
    refine (keeps_finish (fun i h hmerge => ?_) i h).1
    rw [h.options.merge] at hmerge
    cases hmerge
  | call c =>
    cases c with
    | openNode child type mixins => exact (retains_openNode child type mixins i h).1
    | closeNode => exact (retains_closeNode i h).1
    | setProperty other type text =>
      refine retains_setWith h hself fun node hnode hne =>
        retains_assign hne (hpath _ hnode hne) (fun htype => hreference _ ?_ hne) text
      rw [htype]
      exact hnode
    | setProperties other type texts =>
      refine retains_setWith h hself fun node hnode hne =>
        retains_assignAll hne (hpath _ hnode hne) (fun htype => hreference _ ?_ hne) texts
      rw [htype]
      exact hnode
    | openFile => cases hfile
    | openPath path type => exact ((retains_openPath path type).discard i h).1
    | createUser id password extra => exact (isKeptBy_retains.createUser id password extra i h).1
    | createGroup id members extra => exact (isKeptBy_retains.createGroup id members extra i h).1
    | setEntries => exact (isKeptBy_retains.setEntries (keeps_current fun _ => trivial) i h).1

/-- The path of a property is not mistaken for that of another one which actions set: none of the
others has it, if the property is set at all, and none that may wait stands for the property. -/
structure HasOwnPath (owner name : String) (i : Import) (actions : List Action) : Prop where
  written : (owner, name) ∈ trace declared i actions → ∀ q ∈ trace declared i actions,
    q ≠ (owner, name) → Path.join q.1 q.2 ≠ Path.join owner name
  waiting : ∀ q ∈ trace references i actions, q ≠ (owner, name) →
    standsFor owner name (Path.join q.1 q.2) = false

theorem retains_run (h : Retains owner name p isSet i)
    (hfiles : ∀ a ∈ actions, a.OpensNoFile)
    (hself : (owner, name) ∈ trace declared i actions → isSet)
    (hpath : ∀ q ∈ trace declared i actions, q ≠ (owner, name) → isSet →
      Path.join q.1 q.2 ≠ Path.join owner name)
    (hreference : ∀ q ∈ trace references i actions, q ≠ (owner, name) →
      standsFor owner name (Path.join q.1 q.2) = false) :
    Retains owner name p isSet (actions.foldl after i) := by
  induction actions generalizing i with
  | nil => exact h
  | cons a actions ih =>
    obtain ⟨hfile, hfiles⟩ := List.forall_mem_cons.1 hfiles
    have hfirst := h.after hfile (fun hmem => hself (List.mem_append_left _ hmem))
      (fun q hq => hpath q (List.mem_append_left _ hq))
      fun q hq => hreference q (List.mem_append_left _ hq)
    exact ih hfirst hfiles (fun hmem => hself (List.mem_append_right _ hmem))
      (fun q hq => hpath q (List.mem_append_right _ hq))
      fun q hq => hreference q (List.mem_append_right _ hq)

theorem retains_prepared (hoptions : options.IsAdditive)
    (hp : r.property? owner name = some p) :
    Retains owner name p isSet (prepared options clock r target top) := by
  rw [prepared_eq]
  split
  · exact ⟨hoptions, hp, fun _ => nofun, fun _ => rfl⟩
  · exact ⟨hoptions, hp, fun _ => nofun, fun _ => rfl⟩

/-- **A property that was there before an import is there afterwards with its value,** unless its
path is mistaken for that of another property which the import sets. -/
theorem property?_session (hoptions : options.IsAdditive) (hfiles : ∀ a ∈ actions, a.OpensNoFile)
    (hp : r.property? owner name = some p)
    (hpath : HasOwnPath owner name (prepared options clock r target top) actions) :
    (session options clock r target top actions).repository.property? owner name = some p :=
  (retains_run (retains_prepared hoptions hp) hfiles id
    (fun q hq hne hset => hpath.written hset q hq hne) hpath.waiting).property

/-! ## Names without slashes -/

/-- The name under which an action sets a property of the current node. -/
def Action.setName? : Action → Option String
  | .call (.setProperty name _ _) | .call (.setProperties name _ _) => some name
  | _ => none

theorem mem_declared {a : Action} (hfile : a.OpensNoFile) {q : String × String}
    (h : q ∈ i.declared a) : q.1 ∈ i.opened ∧ a.setName? = some q.2 := by
  have hset : ∀ other, q ∈ (i.opened.head?.map (·, other)).toList →
      q.1 ∈ i.opened ∧ some other = some q.2 := by
    intro other hq
    obtain ⟨node, hnode, rfl⟩ := Option.map_eq_some_iff.1 (Option.mem_toList.1 hq)
    exact ⟨List.mem_of_mem_head? hnode, rfl⟩
  unfold declared at h
  split at h
  · exact hset _ h
  · exact hset _ h
  · cases hfile
  · cases h

/-- **Where no name has a slash, no path is mistaken for another one.** -/
theorem hasOwnPath_of_noSlash (hr : r.Reachable) (hfiles : ∀ a ∈ actions, a.OpensNoFile)
    (hnames : ∀ a ∈ actions, ∀ other, a.setName? = some other → '/' ∉ other.toList)
    (howner : owner ≠ "") :
    HasOwnPath owner name (prepared options clock r target top) actions := by
  have hproper : ∀ q ∈ trace declared (prepared options clock r target top) actions,
      q.1 ≠ "" ∧ '/' ∉ q.2.toList := by
    intro q hq
    obtain ⟨before, a, rest, rfl, hmem⟩ := mem_trace_iff.1 hq
    have ha : a ∈ before ++ a :: rest := List.mem_append_right _ List.mem_cons_self
    obtain ⟨hopened, hname⟩ := mem_declared (hfiles a ha) hmem
    have hwithin := isWithin_root_of_mem_opened hr before hopened
    refine ⟨fun hempty => ?_, hnames a ha q.2 hname⟩
    rw [hempty] at hwithin
    exact absurd hwithin (by decide)
  constructor
  · intro hself q hq hne heq
    obtain ⟨hnode, hother⟩ := hproper q hq
    obtain ⟨hparent, hname⟩ := Path.join_inj hnode howner hother (hproper _ hself).2 heq
    exact hne (Prod.ext hparent hname)
  · intro q hq hne
    obtain ⟨hnode, hother⟩ := hproper q (mem_trace_declared_of_mem hq)
    exact Bool.eq_false_iff.2 fun hstands => hne (eq_of_standsFor_join hnode hother hstands)

/-! ## Names with slashes -/

/-- A node with a child that has a property. -/
def titledRepository : Repository :=
  Repository.run
    [ .addNode "/" "a" "nt:folder", .addNode "/a" "b" "nt:folder",
      .setProperty "/a/b" "c" (.single (.string "old")) ]
    (.new .standard)

/-- Both kinds of calls that set a property, with names that lead to no property of the child. -/
def properActions : List Action :=
  [ .call (.setProperty "b/d" .string "new"), .call (.setProperties "b" .reference ["x"]),
    .call (.openNode (some "b") none []), .call (.setProperty "c" .string "new"),
    .call .closeNode ]

theorem property?_session_of_properActions :
    HasOwnPath "/a/b" "c" (prepared {} 0 titledRepository "/a" none) properActions ∧
      (session {} 0 titledRepository "/a" none properActions).repository.property? "/a/b" "c" =
        some (.single (.string "old")) := by
  have hpath : HasOwnPath "/a/b" "c" (prepared {} 0 titledRepository "/a" none) properActions :=
    ⟨by decide +kernel, by decide +kernel⟩
  have hfiles : ∀ a ∈ properActions, a.OpensNoFile := by simp [properActions, Action.OpensNoFile]
  have hp : titledRepository.property? "/a/b" "c" = some (.single (.string "old")) := by
    decide +kernel
  exact ⟨hpath, property?_session ⟨rfl, rfl, rfl, rfl⟩ hfiles hp hpath⟩

/-- The property is taken for one that the import wrote, and is overwritten. -/
def overwritingActions : List Action :=
  [ .call (.setProperty "b/c" .string "new"), .call (.openNode (some "b") none []),
    .call (.setProperty "c" .string "new"), .call .closeNode ]

/-- The property is taken for one that waits for a node, and is overwritten once the node is there.
-/
def settlingActions : List Action :=
  [ .call (.setProperty "b/c" .reference "t"), .call (.openNode (some "t") none []),
    .call .closeNode ]

/-- **A property does not survive** if another one has its path, be it written or settled. -/
theorem property?_overwritten :
    titledRepository.Reachable ∧
      titledRepository.property? "/a/b" "c" = some (.single (.string "old")) ∧
      (session {} 0 titledRepository "/a" none overwritingActions).repository.property? "/a/b" "c" =
        some (.single (.string "new")) ∧
      (session {} 0 titledRepository "/a" none settlingActions).repository.property? "/a/b" "c" =
        some (.single (.reference (Repository.identifier 3))) :=
  ⟨(Repository.Reachable.new .standard).run _, by decide +kernel, by decide +kernel,
    by decide +kernel⟩

end ContentImport.Import
