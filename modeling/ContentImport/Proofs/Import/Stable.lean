import ContentImport.Proofs.Import.Parts
import ContentImport.Proofs.Repository.Operation

/-!
# Invariants of imports

The importer changes the repository by operations, and otherwise it mostly takes down what came of
them. So what a function of the importer keeps follows from what the operations keep.

* `IsKeptUnder` says that the operations of a kind keep an invariant, and that it does not matter
  for the invariant which properties the content mentions and which nodes it asks to check in. The
  functions that come down to operations of that kind keep the invariant then, whether they fail or
  not (`IsKeptUnder.addMixins`, `IsKeptUnder.clear` and so on). Whole calls keep it if it does not
  matter either which nodes are open or what waits (`IsKeptUnder.perform`).
* `IsKeptBy` says besides that the operations that concern principals are of that kind, so that the
  calls that create users and groups keep the invariant (`IsKeptBy.createUser`).
* `IsStable` says that it does not matter either which nodes were created and which properties were
  written, so that adding nodes and writing properties are operations like the others
  (`IsStable.create`, `IsStable.write`).
-/

namespace ContentImport

/-- The options leave nodes and properties that are there as they are. -/
structure ImportOptions.IsAdditive (o : ImportOptions) : Prop where
  overwrite : o.overwrite = false
  propertyOverwrite : o.propertyOverwrite = false
  propertyMerge : o.propertyMerge = false
  merge : o.merge = false

namespace Import

/-! ## Changes of the repository -/

theorem outcome_onRepositoryWith {α : Type} (wrap : RepositoryError → ImportError)
    (change : Repository.Change α) (i : Import) :
    outcome (onRepositoryWith wrap change) i =
      match outcome change i.repository with
      | (.ok a, r) => (.ok a, { i with repository := r })
      | (.error e, r) => (.error (wrap e), { i with repository := r }) := by
  rw [onRepositoryWith, outcome_bind, outcome_get]
  have hrun : change.run.run i.repository = outcome change i.repository := rfl
  dsimp only
  rw [hrun]
  rcases outcome change i.repository with ⟨e | a, r'⟩ <;> rfl

theorem snd_outcome_onRepositoryWith {α : Type} (wrap : RepositoryError → ImportError)
    (change : Repository.Change α) (i : Import) :
    (outcome (onRepositoryWith wrap change) i).2 =
      { i with repository := (outcome change i.repository).2 } := by
  rw [outcome_onRepositoryWith]
  rcases outcome change i.repository with ⟨e | a, r'⟩ <;> rfl

/-- An operation concerns users and groups only. -/
def ConcernsPrincipals : Repository.Operation → Prop
  | .createUser _ _ | .createGroup _ | .addMember _ _ | .setAuthorizableProperty _ _ _ => True
  | _ => False

/-! ## Kept invariants -/

theorem mem_including_of_mem {l : List String} {a b : String} (h : b ∈ l) : b ∈ including l a := by
  unfold including
  split
  · exact h
  · exact List.mem_append_left _ h

/-- Operations of a kind keep an invariant, and so does what the importer notes about the
content. -/
structure IsKeptUnder (Allows : Repository.Operation → Prop) (I : Import → Prop) : Prop where
  operation : ∀ op, Allows op → ∀ i, I i → I { i with repository := op.after i.repository }
  notes : ∀ i mentioned versionable, (∀ m ∈ i.mentioned, m ∈ mentioned) → I i →
    I { i with mentioned, versionable }

/-- An invariant is kept by operations of a kind, which those that concern principals are of. -/
structure IsKeptBy (Allows : Repository.Operation → Prop) (I : Import → Prop) : Prop
    extends IsKeptUnder Allows I where
  principals : ∀ op, ConcernsPrincipals op → Allows op

namespace IsKeptUnder

variable {Allows : Repository.Operation → Prop} {I : Import → Prop} (h : IsKeptUnder Allows I)

include h

theorem onRepositoryWith {α : Type} (wrap : RepositoryError → ImportError)
    {change : Repository.Change α} (op : Repository.Operation) (hop : Allows op)
    (hafter : ∀ r, (outcome change r).2 = op.after r) : Keeps I (onRepositoryWith wrap change) := by
  intro i hi
  rw [snd_outcome_onRepositoryWith, hafter]
  exact ⟨h.operation op hop i hi, fun _ _ => trivial⟩

theorem onRepository {α : Type} {change : Repository.Change α} (op : Repository.Operation)
    (hop : Allows op) (hafter : ∀ r, (outcome change r).2 = op.after r) :
    Keeps I (onRepository change) :=
  h.onRepositoryWith .repository op hop hafter

/-- The operation is a change that returns something. -/
theorem discard {α : Type} {change : Repository.Change α} (op : Repository.Operation)
    (hop : Allows op) (hchange : op.change = (fun _ => ()) <$> change) :
    Keeps I (discard (Import.onRepository change)) := by
  refine .discard (h.onRepository op hop fun r => ?_)
  rw [Repository.Operation.after, hchange, snd_outcome_map]

theorem mention (name : String) : Keeps I (mention name) :=
  .modify fun i hi => h.notes i _ i.versionable (fun _ hm => mem_including_of_mem hm) hi

theorem recordVersionable (node : String) : Keeps I (recordVersionable node) :=
  .modify fun i hi => h.notes i i.mentioned _ (fun _ hm => hm) hi

theorem removeUnmentioned {node : String} (hop : ∀ name, Allows (.removeProperty node name)) :
    Keeps I (removeUnmentioned node) := by
  refine .bind .get fun i _ => ?_
  split
  · exact .pure trivial
  · exact .forM fun name _ => h.discard (.removeProperty node name) (hop name) rfl

theorem addMixins (node : String) (hop : ∀ mixin, Allows (.addMixin node mixin))
    (mixins : List String) : Keeps I (addMixins node mixins) :=
  .forM fun mixin _ => h.discard (.addMixin node mixin) (hop mixin) rfl

theorem clear {node : String} (hop : Allows (.removeNode node)) : Keeps I (clear node) :=
  keeps_clear fun _ _ _ => h.onRepository (.removeNode node) hop fun _ => rfl

theorem finish (hop : ∀ path, Allows (.removeNode path)) : Keeps I finish :=
  keeps_finish fun _ _ _ path => .modify fun i hi => by
    split
    · exact h.operation (.removeNode path) (hop path) i hi
    · exact hi

/-! ## Principals and entries -/

theorem setExtra {id : String} (hop : ∀ name v, Allows (.setAuthorizableProperty id name v))
    (extra : Table Value) : Keeps I (setExtra id extra) :=
  .forM fun row _ => h.onRepository (.setAuthorizableProperty id row.1 row.2) (hop row.1 row.2)
    fun _ => rfl

theorem addMembers {id : String} (hop : ∀ m, Allows (.addMember id m)) (members : List String) :
    Keeps I
      (members.forM fun m => Functor.discard (Import.onRepository (Repository.addMember id m))) :=
  .forM fun m _ => h.discard (.addMember id m) (hop m) rfl

theorem setEntries {principal : String} {grants : List Grant} {order : Option String}
    (hcurrent : Keeps I current fun path => Allows (.updateEntries path principal grants order)) :
    Keeps I (setEntries principal grants order) := by
  refine .bind hcurrent fun path hop => .bind .get fun i _ => ?_
  split
  · exact .throw _
  · exact h.onRepositoryWith _ (.updateEntries path principal grants order) hop fun _ => rfl

/-! ## Calls -/

section Calls

variable
  (hopen : ∀ i opened imported top, I i → I { i with opened, imported, top })
  (hwait : ∀ i waiting pending, I i → I { i with waiting, pending })
  (hcreate : ∀ parent name type, Keeps I (create parent name type))
  (hwrite : ∀ node name property, Keeps I (write node name property))

section Nodes

omit h in
include hopen in
theorem push (node : String) : Keeps I (push node) :=
  .modify fun i hi => hopen i _ i.imported i.top hi

omit h in
include hopen hcreate in
theorem openPath (path : String) (type : Option String) : Keeps I (openPath path type) :=
  keeps_openPath (Q := fun _ => True) (keeps_current fun _ => trivial)
    (fun _ _ names => keeps_descend (fun _ _ _ => trivial) (fun _ _ _ _ => hcreate _ _ _) trivial
      names)
    fun _ _ => push hopen _

variable (hmixin : ∀ node mixin, Allows (.addMixin node mixin))
  (hclear : ∀ i, I i → i.options.overwrite = true → ∀ node, Allows (.removeNode node))

include hopen hcreate hmixin hclear

theorem openNode (name type : Option String) (mixins : List String) :
    Keeps I (openNode name type mixins) := by
  refine keeps_openNode (keeps_current fun _ => trivial) (fun parent _ name => ?_) name
  refine keeps_openChild (keeps_clear fun i hi hover => ?_)
    (keeps_ensure fun type => hcreate parent name type) (h.addMixins _ (hmixin _) mixins)
    (.modify fun i hi => hopen i _ _ _ hi)
  exact h.onRepository (.removeNode (Path.join parent name)) (hclear i hi hover _) fun _ => rfl

include hwrite in
theorem openFile (name : String) (data : Except FileError Bytes) (mediaType : Option String)
    (modified : Int) : Keeps I (openFile name data mediaType modified) := by
  have hset : ∀ name v, Keeps I (setFileProperty name v) := fun name v =>
    keeps_setFileProperty (keeps_current fun node => hwrite node name (.single v)) (h.mention name)
  exact keeps_openFile (Q := fun _ => True) (keeps_current fun _ => trivial)
    (fun parent _ => keeps_openStoredFile (hcreate _ _ _) (push hopen _) (push hopen _))
    (fun name type => h.openNode hopen hcreate hmixin hclear name type []) fun file name =>
      keeps_writeContent (fun _ => hset _ _) (fun _ _ _ _ => hset _ _) fun _ => hset _ _

end Nodes

section Properties

section Set

variable (hawait : ∀ i target path, I i → I (i.await target path))

omit h in
include hawait in
theorem lookUp (node name reference : String) : Keeps I (lookUp node name reference) :=
  keeps_lookUp (fun _ _ _ _ => trivial) trivial fun i hi _ => hawait i _ _ hi

include hawait hwrite

theorem setProperty (name : String) (type : ValueType) (text : String) :
    Keeps I (setProperty name type text) := by
  rw [setProperty_eq]
  refine keeps_setWith (h.mention name) (keeps_current fun _ => trivial) fun node _ _ _ _ => ?_
  exact keeps_assign (fun _ => lookUp hawait node name text) (fun _ _ => hwrite node name _)
    (h.recordVersionable node) fun _ _ _ _ => hwrite node name _

theorem setProperties (hpending : ∀ i pending, I i → I { i with pending }) (name : String)
    (type : ValueType) (texts : List String) : Keeps I (setProperties name type texts) := by
  rw [setProperties_eq]
  refine keeps_setWith (h.mention name) (keeps_current fun _ => trivial) fun node _ _ _ _ => ?_
  exact keeps_assignAll (fun _ => lookUp hawait node name)
    (fun _ _ _ => .modify fun i hi => hpending i _ hi) (fun _ _ => hwrite node name _)
    fun _ _ _ => hwrite node name _

end Set

include hwait

theorem closeNode (hopen : ∀ i opened imported top, I i → I { i with opened, imported, top })
    (hset : ∀ node name property, Allows (.setProperty node name property))
    (hunset : ∀ i, I i → i.options.propertyMerge = true →
      ∀ node name, Allows (.removeProperty node name)) : Keeps I closeNode := by
  refine keeps_closeNode fun i _ node rest _ => ⟨fun j hj => hopen j rest j.imported j.top hj, ?_⟩
  refine keeps_settleNode (fun i hi hmerge => h.removeUnmentioned (hunset i hi hmerge node)) ?_
  refine keeps_settleReferences (fun i hi => hwait i _ i.pending hi)
    fun _ _ _ _ path _ _ _ _ _ => ?_
  exact keeps_settleProperty (keeps_settledProperty fun i pending hi => hwait i i.waiting _ hi)
    fun owner _ property _ => h.onRepository (.setProperty owner (Path.name path) property)
      (hset _ _ _) fun _ => rfl

end Properties

include hopen hwait hcreate hwrite

/-- **Every call keeps an invariant** that the parts of calls keep, if it does not matter for it
what is open or imported, and what waits. -/
theorem perform (hset : ∀ node name property, Allows (.setProperty node name property))
    (hmixin : ∀ node mixin, Allows (.addMixin node mixin))
    (hentries : ∀ path principal grants order,
      Allows (.updateEntries path principal grants order))
    (hclear : ∀ i, I i → i.options.overwrite = true → ∀ node, Allows (.removeNode node))
    (hunset : ∀ i, I i → i.options.propertyMerge = true →
      ∀ node name, Allows (.removeProperty node name))
    {c : Call}
    (huser : ∀ id password extra, c = .createUser id password extra →
      Keeps I (createUser id password extra))
    (hgroup : ∀ id members extra, c = .createGroup id members extra →
      Keeps I (createGroup id members extra)) : Keeps I (perform c) := by
  have hawait : ∀ i target path, I i → I (i.await target path) :=
    fun i _ _ hi => hwait i _ i.pending hi
  cases c with
  | openNode name type mixins => exact h.openNode hopen hcreate hmixin hclear name type mixins
  | closeNode => exact h.closeNode hwait hopen hset hunset
  | setProperty name type text => exact h.setProperty hwrite hawait name type text
  | setProperties name type texts =>
    exact h.setProperties hwrite hawait (fun i pending hi => hwait i i.waiting pending hi) name type
      texts
  | openFile name data mediaType modified =>
    exact h.openFile hopen hcreate hwrite hmixin hclear name data mediaType modified
  | openPath path type => exact (openPath hopen hcreate path type).discard
  | createUser id password extra => exact huser id password extra rfl
  | createGroup id members extra => exact hgroup id members extra rfl
  | setEntries => exact h.setEntries (keeps_current fun _ => hentries _ _ _ _)

end Calls

end IsKeptUnder

namespace IsKeptBy

variable {Allows : Repository.Operation → Prop} {I : Import → Prop} (h : IsKeptBy Allows I)

include h

theorem createUser (id : String) (password : Option String) (extra : Table Value) :
    Keeps I (createUser id password extra) :=
  .bind (h.discard (.createUser id password) (h.principals _ trivial) rfl) fun _ _ =>
    h.setExtra (fun _ _ => h.principals _ trivial) extra

theorem createGroup (id : String) (members : List String) (extra : Table Value) :
    Keeps I (createGroup id members extra) :=
  .bind (h.discard (.createGroup id) (h.principals _ trivial) rfl) fun _ _ =>
    (h.addMembers (fun _ => h.principals _ trivial) members).bind fun _ _ =>
      h.setExtra (fun _ _ => h.principals _ trivial) extra

end IsKeptBy

/-! ## Stable invariants -/

/-- An invariant is kept by operations of a kind, and nothing matters for it that an import takes
down of its course. -/
structure IsStable (Allows : Repository.Operation → Prop) (I : Import → Prop) : Prop
    extends IsKeptBy Allows I where
  records : ∀ i created written, I i → I { i with created, written }

namespace IsStable

variable {Allows : Repository.Operation → Prop} {I : Import → Prop} (h : IsStable Allows I)

include h

/-- Two invariants are kept together by the operations that keep both. -/
theorem and {Allows' : Repository.Operation → Prop} {J : Import → Prop} (h' : IsStable Allows' J) :
    IsStable (fun op => Allows op ∧ Allows' op) fun i => I i ∧ J i where
  principals := fun op hop => ⟨h.principals op hop, h'.principals op hop⟩
  operation := fun op hop i hi =>
    ⟨h.operation op hop.1 i hi.1, h'.operation op hop.2 i hi.2⟩
  notes := fun i mentioned versionable hmentioned hi =>
    ⟨h.notes i mentioned versionable hmentioned hi.1,
      h'.notes i mentioned versionable hmentioned hi.2⟩
  records := fun i created written hi =>
    ⟨h.records i created written hi.1, h'.records i created written hi.2⟩

/-! ## Properties -/

theorem write {node name : String} {property : Property}
    (hop : Allows (.setProperty node name property)) : Keeps I (write node name property) :=
  .bind (h.onRepository (.setProperty node name property) hop fun _ => rfl) fun _ _ =>
    .modify fun i hi => h.records i i.created _ hi

theorem setFileProperty {name : String} {v : Value}
    (hcurrent : Keeps I current fun node => Allows (.setProperty node name (.single v))) :
    Keeps I (setFileProperty name v) :=
  .bind hcurrent fun _ hop => .bind (h.write hop) fun _ _ => h.mention name

/-- The content of a file has no references. -/
theorem writeContent (hcurrent : ∀ name v, v.type ≠ .reference →
      Keeps I current fun node => Allows (.setProperty node name (.single v)))
    (file name : String) (data : Except FileError Bytes) (mediaType : Option String)
    (modified : Int) : Keeps I (writeContent file name data mediaType modified) :=
  keeps_writeContent (fun _ => h.setFileProperty (hcurrent _ _ (by simp [Value.type])))
    (fun _ _ _ _ => h.setFileProperty (hcurrent _ _ (by simp [Value.type])))
    fun _ => h.setFileProperty (hcurrent _ _ (by simp [Value.type]))

/-! ## Nodes -/

theorem create {parent name type : String} (hop : Allows (.addNode parent name type)) :
    Keeps I (create parent name type) :=
  (h.discard (.addNode parent name type) hop rfl).bind fun _ _ =>
    .modify fun i hi => h.records i _ i.written hi

theorem ensure {parent name : String} (hop : ∀ type, Allows (.addNode parent name type))
    (type : Option String) : Keeps I (ensure parent name type) :=
  keeps_ensure fun type => h.create (hop type)

theorem openChild {parent name : String} (hclear : Keeps I (Import.clear (Path.join parent name)))
    (hadd : ∀ type, Allows (.addNode parent name type))
    (hmixin : ∀ mixin, Allows (.addMixin (Path.join parent name) mixin))
    (henter : Keeps I (enter (Path.join parent name))) (type : Option String)
    (mixins : List String) : Keeps I (openChild parent name type mixins) :=
  keeps_openChild hclear (h.ensure hadd type) (h.addMixins _ hmixin mixins) henter

section Paths

variable (hadds : ∀ parent name type, Allows (.addNode parent name type))
  (hopened : ∀ i opened, I i → I { i with opened })

include hadds hopened

theorem openPath (path : String) (type : Option String) : Keeps I (openPath path type) :=
  keeps_openPath (keeps_current fun _ => trivial)
    (fun _ _ names => keeps_descend (fun _ _ _ => trivial)
      (fun parent _ name type => h.create (hadds parent name type)) trivial names)
    fun _ _ => .modify fun i hi => hopened i _ hi

theorem openStoredFile (file : String) (modified : Int) :
    Keeps I (openStoredFile file modified) :=
  keeps_openStoredFile (h.create (hadds file contentName resourceType))
    (.modify fun i hi => hopened i _ hi) (.modify fun i hi => hopened i _ hi)

end Paths

end IsStable

end Import

end ContentImport
