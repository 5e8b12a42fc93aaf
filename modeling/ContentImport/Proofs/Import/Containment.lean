import ContentImport.Proofs.Import.Stable
import ContentImport.Proofs.Repository.Frame

/-!
# Containment of imports

Every step of an import concerns nothing but the target of the import and what lies within it.

* `IsContained` is the invariant. Besides the repository it concerns all that later steps take
  paths from: the open nodes, the imported nodes, whose siblings and children merging removes, and
  the properties that wait for a node.
* Each function of the importer keeps the invariant (`contained_perform`, `contained_finish`),
  whether it fails or not. What it changes in the repository it changes by operations inside of the
  target (`isStable_contained`).

Nothing is assumed of the repository, in particular not that its nodes form a tree.
-/

namespace ContentImport.Import

/-- What an import has done since it began concerns nothing but its target and what lies within it,
and the paths that it goes on from lie there too. -/
structure IsContained (target : String) (start i : Import) : Prop where
  repository : Repository.ChangedInside target start.repository i.repository
  options : i.options = start.options
  opened : ∀ path ∈ i.opened, Path.isWithin path target = true
  imported : ∀ path ∈ i.imported, Path.IsBelow path target
  /-- The properties that wait for a node are those of nodes within the target. -/
  waiting : ∀ node paths, i.waiting.get? node = some paths →
    ∀ path ∈ paths, Path.IsBelow path target

variable {target : String} {start : Import}

/-- Operations inside of the target keep an import contained. -/
theorem isStable_contained :
    IsStable (Repository.Operation.IsInside target) (IsContained target start) where
  principals := by
    intro op hop
    cases op <;> trivial
  operation := fun op hop _ hi =>
    ⟨hi.repository.after op hop, hi.options, hi.opened, hi.imported, hi.waiting⟩
  notes := fun _ _ _ _ hi => ⟨hi.repository, hi.options, hi.opened, hi.imported, hi.waiting⟩
  records := fun _ _ _ hi => ⟨hi.repository, hi.options, hi.opened, hi.imported, hi.waiting⟩

/-! ## Records of the import -/

theorem contained_current :
    Keeps (IsContained target start) current fun path => Path.isWithin path target = true :=
  keeps_current_of_opened fun _ hi => hi.opened

theorem contained_push {path : String} (hpath : Path.isWithin path target = true) :
    Keeps (IsContained target start) (push path) := by
  refine .modify ?_
  intro i hi
  refine ⟨hi.repository, hi.options, ?_, hi.imported, hi.waiting⟩
  exact List.forall_mem_cons.2 ⟨hpath, hi.opened⟩

theorem mem_including {l : List String} {a b : String} (h : b ∈ including l a) :
    b ∈ l ∨ b = a := by
  unfold including at h
  split at h
  · exact .inl h
  · simpa using h

theorem contained_prepare (name : Option String) :
    Keeps (IsContained target start) (prepare target name) := by
  refine .bind .get ?_
  intro i _
  refine .guarded (fun _ => .throw _) fun _ => .modify ?_
  intro i hi
  refine ⟨hi.repository, hi.options, ?_, hi.imported, hi.waiting⟩
  exact List.forall_mem_singleton.2 (Path.isWithin_refl target)

/-! ## Properties -/

section Properties

variable {node : String} (hnode : Path.isWithin node target = true)

include hnode

/-- The property of a node within the target waits, if it refers to a node that is missing. -/
theorem contained_lookUp (name reference : String) :
    Keeps (IsContained target start) (lookUp node name reference) := by
  refine keeps_lookUp (fun _ _ _ _ => trivial) trivial fun i hi _ => ?_
  refine ⟨hi.repository, hi.options, hi.opened, hi.imported, ?_⟩
  refine Table.forall_get?_insert hi.waiting ?_
  intro path hpath
  rcases List.mem_append.1 hpath with hpath | hpath
  · cases hwaiting : i.waiting.get? (Path.resolve node reference) with
    | none =>
      rw [hwaiting] at hpath
      cases hpath
    | some paths =>
      rw [hwaiting] at hpath
      exact hi.waiting _ paths hwaiting path hpath
  · rw [List.mem_singleton.1 hpath]
    exact Path.isBelow_join hnode name

end Properties

theorem contained_setProperty (name : String) (type : ValueType) (text : String) :
    Keeps (IsContained target start) (setProperty name type text) := by
  rw [setProperty_eq]
  refine keeps_setWith (isStable_contained.mention name) contained_current
    fun node hnode _ _ _ => ?_
  exact keeps_assign (fun _ => contained_lookUp hnode name text)
    (fun _ _ => isStable_contained.write hnode) (isStable_contained.recordVersionable node)
    fun _ _ _ _ => isStable_contained.write hnode

theorem contained_setProperties (name : String) (type : ValueType) (texts : List String) :
    Keeps (IsContained target start) (setProperties name type texts) := by
  rw [setProperties_eq]
  refine keeps_setWith (isStable_contained.mention name) contained_current
    fun node hnode _ _ _ => ?_
  refine keeps_assignAll (fun _ => contained_lookUp hnode name)
    (fun _ _ _ => .modify fun _ hi => ?_)
    (fun _ _ => isStable_contained.write hnode) fun _ _ _ => isStable_contained.write hnode
  exact ⟨hi.repository, hi.options, hi.opened, hi.imported, hi.waiting⟩

/-! ## References that waited -/

theorem contained_settleProperty {path : String} (hpath : Path.IsBelow path target)
    (node id : String) : Keeps (IsContained target start) (settleProperty node id path) := by
  have hsettled : Keeps (IsContained target start) (settledProperty path node id) :=
    keeps_settledProperty fun _ _ hi =>
      ⟨hi.repository, hi.options, hi.opened, hi.imported, hi.waiting⟩
  refine keeps_settleProperty hsettled fun owner howner property _ => ?_
  exact isStable_contained.onRepository (.setProperty owner (Path.name path) property)
    (hpath.isWithin_parent howner) fun _ => rfl

theorem contained_settleReferences (node : String) :
    Keeps (IsContained target start) (settleReferences node) := by
  refine keeps_settleReferences (fun i hi => ?_) fun i hi paths hpaths path hpath _ _ _ _ =>
    contained_settleProperty (hi.waiting node paths hpaths path hpath) node _
  refine ⟨hi.repository, hi.options, hi.opened, hi.imported, ?_⟩
  intro k ks hks
  rw [Table.get?_erase] at hks
  split at hks
  · cases hks
  · exact hi.waiting k ks hks

/-! ## Nodes -/

theorem contained_openChild {parent : String} (hparent : Path.isWithin parent target = true)
    (name : String) (type : Option String) (mixins : List String) :
    Keeps (IsContained target start) (openChild parent name type mixins) := by
  have hbelow := Path.isBelow_join hparent name
  refine isStable_contained.openChild (isStable_contained.clear hbelow) (fun _ => hparent)
    (fun _ => hbelow.within) (.modify fun i hi => ?_) type mixins
  refine ⟨hi.repository, hi.options, ?_, ?_, hi.waiting⟩
  · exact List.forall_mem_cons.2 ⟨hbelow.within, hi.opened⟩
  · intro path hpath
    rcases mem_including hpath with hpath | rfl
    · exact hi.imported path hpath
    · exact hbelow

theorem contained_openNode (name : Option String) (type : Option String) (mixins : List String) :
    Keeps (IsContained target start) (openNode name type mixins) :=
  keeps_openNode contained_current
    (fun _ hparent name => contained_openChild hparent name type mixins) name

theorem contained_closeNode : Keeps (IsContained target start) closeNode := by
  refine keeps_closeNode fun i hi node rest hopened => ?_
  have hwithin := hi.opened
  rw [hopened] at hwithin
  obtain ⟨hnode, hrest⟩ := List.forall_mem_cons.1 hwithin
  refine ⟨fun j hj => ⟨hj.repository, hj.options, hrest, hj.imported, hj.waiting⟩, ?_⟩
  exact keeps_settleNode (fun _ _ _ => isStable_contained.removeUnmentioned fun _ => hnode)
    (contained_settleReferences node)

/-- Descending stays within the target, since every name is joined to a path within it. -/
theorem contained_openPath (path : String) (type : Option String) :
    Keeps (IsContained target start) (openPath path type) := by
  have hjoin : ∀ parent, Path.isWithin parent target = true →
      ∀ name, Path.isWithin (Path.join parent name) target = true :=
    fun _ hparent name => Path.isWithin_join hparent name
  refine keeps_openPath contained_current (fun node hnode names => ?_) fun _ hnode =>
    contained_push hnode
  exact keeps_descend hjoin (fun _ hparent _ _ => isStable_contained.create hparent) hnode names

/-! ## Files -/

theorem contained_openStoredFile {file : String} (hfile : Path.isWithin file target = true)
    (modified : Int) : Keeps (IsContained target start) (openStoredFile file modified) :=
  keeps_openStoredFile (isStable_contained.create hfile) (contained_push hfile)
    (contained_push (Path.isWithin_join hfile contentName))

theorem contained_openFile (name : String) (data : Except FileError Bytes)
    (mediaType : Option String) (modified : Int) :
    Keeps (IsContained target start) (openFile name data mediaType modified) :=
  keeps_openFile contained_current
    (fun _ hparent => contained_openStoredFile (Path.isWithin_join hparent _) modified)
    (fun name type => contained_openNode name type []) fun file name =>
      isStable_contained.writeContent (fun _ _ _ => contained_current) file name data mediaType
        modified

/-! ## Documents -/

theorem contained_perform (c : Call) : Keeps (IsContained target start) (perform c) := by
  cases c with
  | openNode name type mixins => exact contained_openNode name type mixins
  | closeNode => exact contained_closeNode
  | setProperty name type text => exact contained_setProperty name type text
  | setProperties name type texts => exact contained_setProperties name type texts
  | openFile name data mediaType modified =>
    exact contained_openFile name data mediaType modified
  | openPath path type => exact .discard (contained_openPath path type)
  | createUser id password extra => exact isStable_contained.createUser id password extra
  | createGroup id members extra => exact isStable_contained.createGroup id members extra
  | setEntries => exact isStable_contained.setEntries contained_current

theorem contained_removeQuietly {path : String} (hpath : Path.IsBelow path target) :
    Keeps (IsContained target start) (removeQuietly path) := by
  refine .modify ?_
  intro i hi
  split
  · have hremoved := hi.repository.after (.removeNode path) hpath
    exact ⟨hremoved, hi.options, hi.opened, hi.imported, hi.waiting⟩
  · exact hi

theorem contained_removeOthers {paths : List String}
    (hpaths : ∀ path ∈ paths, Path.IsBelow path target) :
    Keeps (IsContained target start) (removeOthers paths) := by
  refine .bind .get fun i _ => .forM ?_
  intro path hpath
  exact contained_removeQuietly (hpaths path (List.mem_filter.1 hpath).1)

theorem isBelow_of_mem_children {q : String} {repository : Repository}
    (hnode : Path.isWithin q target = true) {path : String} (h : path ∈ repository.children q) :
    Path.IsBelow path target := by
  obtain ⟨name, -, rfl⟩ := Repository.mem_children_iff.1 h
  exact Path.isBelow_join hnode name

theorem contained_finish : Keeps (IsContained target start) finish := by
  refine .bind .get fun _ _ => ?_
  split
  · refine .bind .get fun i hi => .bind (contained_removeOthers ?_) fun _ _ =>
      .bind .get fun j hj => contained_removeOthers ?_
    · intro path hpath
      obtain ⟨node, hnode, hpath⟩ := List.mem_flatMap.1 hpath
      split at hpath
      · next parent hparent =>
        have hwithin := (hi.imported node hnode).isWithin_parent hparent
        exact isBelow_of_mem_children hwithin (List.mem_filter.1 hpath).1
      · cases hpath
    · intro path hpath
      obtain ⟨node, hnode, hpath⟩ := List.mem_flatMap.1 hpath
      exact isBelow_of_mem_children (hj.imported node hnode).within hpath
  · exact .pure trivial

theorem contained_run {α : Type} (s : Script α) : Keeps (IsContained target start) (run s) := by
  refine .bind (.forM fun c _ => contained_perform c) fun _ _ => ?_
  split
  · exact .pure trivial
  · exact .throw _

end ContentImport.Import
