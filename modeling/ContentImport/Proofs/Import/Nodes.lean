import ContentImport.Proofs.Import.Undisturbed
import ContentImport.Proofs.Import.Declared

/-!
# What becomes of nodes

Nodes are added and removed by few of the importer's steps.

* `SameTree` says that the nodes are the same, with their identifiers, as well as those that are
  open and those that were imported. All calls keep that but the ones that open or close nodes
  (`sameTree_setProperty` and so on), and closing a node only takes it from the open ones
  (`closeNode_ok`).
* Opening a child removes nodes only within the child (`keepsOutside_openChild`), and none unless
  existing nodes are overwritten (`keepsIdentifiers_openChild`). `OpensChild` says what it comes to
  if it does not fail.
-/

namespace ContentImport.Import

variable {i j k start : Import} {node parent name : String}

/-! ## Identifiers -/

/-- Identifiers that nodes have outside of a path are kept. -/
def KeepsOutside (path : String) (i j : Import) : Prop :=
  ∀ q id, Path.isWithin q path = false → i.identifier? q = some id → j.identifier? q = some id

/-- Identifiers that nodes have are kept. -/
def KeepsIdentifiers (i j : Import) : Prop :=
  ∀ q id, i.identifier? q = some id → j.identifier? q = some id

theorem KeepsOutside.hasNode (h : KeepsOutside node i j) {q : String}
    (hout : Path.isWithin q node = false) (hq : i.repository.hasNode q = true) :
    j.repository.hasNode q = true := by
  rw [← isSome_identifier?, Option.isSome_iff_exists] at hq ⊢
  obtain ⟨id, hid⟩ := hq
  exact ⟨id, h q id hout hid⟩

theorem KeepsIdentifiers.outside (h : KeepsIdentifiers i j) (path : String) :
    KeepsOutside path i j :=
  fun q id _ hid => h q id hid

theorem KeepsOutside.trans (h : KeepsOutside node i j) (h' : KeepsOutside node j k) :
    KeepsOutside node i k :=
  fun q id hout hid => h' q id hout (h q id hout hid)

/-- An operation adds no node and removes none. -/
def KeepsTree : Repository.Operation → Prop
  | .addNode _ _ _ | .removeNode _ => False
  | _ => True

theorem identifier_after {op : Repository.Operation} (hop : KeepsTree op) (r : Repository)
    (path : String) :
    ((op.after r).node? path).map Node.identifier = (r.node? path).map Node.identifier := by
  have hinsert : ∀ {q : String} {n n' : Node}, r.node? q = some n → n'.identifier = n.identifier →
      ((r.nodes.insert q n').get? path).map Node.identifier =
        (r.node? path).map Node.identifier := by
    intro q n n' hn hidentifier
    rw [Table.get?_insert]
    split
    · next hq => rw [← hq, hn, Option.map_some, Option.map_some, hidentifier]
    · rfl
  have hstep := op.step r
  generalize op.after r = r' at hstep
  cases hstep with
  | addNode | removeNode | removeOrphan => cases hop
  | addMixin hn => exact hinsert hn rfl
  | setProperty hn => exact hinsert hn rfl
  | removeProperty hn => exact hinsert hn rfl
  | _ => rfl

theorem hasNode_after {op : Repository.Operation} (hop : KeepsTree op) (r : Repository)
    (path : String) : (op.after r).hasNode path = r.hasNode path := by
  have hidentifier := congrArg Option.isSome (identifier_after hop r path)
  rwa [Option.isSome_map, Option.isSome_map] at hidentifier

theorem identifier_after_addNode {r : Repository} {q id : String} (parent name type : String)
    (h : (r.node? q).map Node.identifier = some id) :
    (((Repository.Operation.addNode parent name type).after r).node? q).map Node.identifier =
      some id := by
  have hstep := (Repository.Operation.addNode parent name type).step r
  generalize (Repository.Operation.addNode parent name type).after r = r' at hstep
  cases hstep with
  | unchanged => exact h
  | @addNode _ _ _ n _ hnew hparent =>
    rw [Repository.node?, Table.get?_insert, Table.get?_insert]
    split
    · next hq =>
      obtain ⟨n, hn, -⟩ := Option.map_eq_some_iff.1 h
      rw [hq, Repository.hasNode_of_node? hn] at hnew
      cases hnew
    split
    · next hq => rwa [← hq, hparent] at h
    · exact h

theorem identifier_after_removeNode (r : Repository) {path q : String}
    (hq : Path.isWithin q path = false) :
    (((Repository.Operation.removeNode path).after r).node? q).map Node.identifier =
      (r.node? q).map Node.identifier := by
  have houtside : (r.nodes.filter fun k _ => !Path.isWithin k path).get? q = r.node? q := by
    rw [Path.get?_outside, hq]
    rfl
  have hstep := (Repository.Operation.removeNode path).step r
  generalize (Repository.Operation.removeNode path).after r = r' at hstep
  cases hstep with
  | unchanged => rfl
  | removeNode _ _ hn =>
    rw [Repository.node?, Table.get?_insert]
    split
    · next hparent =>
      rw [hparent, houtside] at hn
      rw [hn]
      rfl
    · rw [houtside]
  | removeOrphan => exact congrArg (Option.map Node.identifier) houtside

/-- An operation removes no node. -/
def KeepsNodes : Repository.Operation → Prop
  | .removeNode _ => False
  | _ => True

theorem identifier_after_of_keepsNodes {op : Repository.Operation} (hop : KeepsNodes op)
    {r : Repository} {q id : String} (h : (r.node? q).map Node.identifier = some id) :
    ((op.after r).node? q).map Node.identifier = some id := by
  cases op with
  | addNode => exact identifier_after_addNode _ _ _ h
  | removeNode => exact hop.elim
  | _ => exact (identifier_after (by trivial) r q).trans h

theorem isStable_keepsIdentifiers : IsStable KeepsNodes (KeepsIdentifiers start) where
  principals := by
    intro op hop
    cases op <;> trivial
  operation := fun _ hop _ h q id hid => identifier_after_of_keepsNodes hop (h q id hid)
  notes := fun _ _ _ _ h => h
  records := fun _ _ _ h => h

/-- An operation removes no other node than a given one. -/
def RemovesOnly (node : String) : Repository.Operation → Prop
  | .removeNode path => path = node
  | _ => True

theorem isStable_keepsOutside : IsStable (RemovesOnly node) (KeepsOutside node start) where
  principals := by
    intro op hop
    cases op <;> trivial
  operation := by
    intro op hop i h q id hout hid
    cases op with
    | removeNode =>
      obtain rfl := hop
      exact (identifier_after_removeNode i.repository hout).trans (h q id hout hid)
    | _ => exact identifier_after_of_keepsNodes (by trivial) (h q id hout hid)
  notes := fun _ _ _ _ h => h
  records := fun _ _ _ h => h

/-! ## The same nodes -/

/-- Two imports have the same options and the same open and imported nodes. -/
structure SamePlace (i j : Import) : Prop where
  options : j.options = i.options
  opened : j.opened = i.opened
  imported : j.imported = i.imported

theorem SamePlace.refl (i : Import) : SamePlace i i := ⟨rfl, rfl, rfl⟩

theorem SamePlace.trans (h : SamePlace i j) (h' : SamePlace j k) : SamePlace i k :=
  ⟨h'.options.trans h.options, h'.opened.trans h.opened, h'.imported.trans h.imported⟩

/-- Two imports at the same place have the same nodes with the same identifiers. -/
structure SameTree (i j : Import) : Prop where
  place : SamePlace i j
  identifier : ∀ path, j.identifier? path = i.identifier? path

namespace SameTree

theorem refl (i : Import) : SameTree i i := ⟨.refl i, fun _ => rfl⟩

theorem trans (h : SameTree i j) (h' : SameTree j k) : SameTree i k :=
  ⟨h.place.trans h'.place, fun path => (h'.identifier path).trans (h.identifier path)⟩

theorem hasNode (h : SameTree i j) (path : String) :
    j.repository.hasNode path = i.repository.hasNode path := by
  rw [← isSome_identifier?, h.identifier, isSome_identifier?]

/-- What keeps the nodes keeps their identifiers. -/
theorem keeps {α : Type} {c : Step α} (hc : ∀ i, Keeps (SameTree i) c) :
    Keeps (KeepsIdentifiers start) c := by
  intro i hi
  refine ⟨fun q id hid => ?_, fun _ _ => trivial⟩
  exact ((hc i i (.refl i)).1.identifier q).trans (hi q id hid)

end SameTree

/-- Operations that add no node and remove none keep the nodes. -/
theorem isStable_sameTree : IsStable KeepsTree (SameTree start) where
  principals := by
    intro op hop
    cases op <;> trivial
  operation := fun _ hop i h => h.trans ⟨⟨rfl, rfl, rfl⟩, identifier_after hop i.repository⟩
  notes := fun _ _ _ _ h => h.trans ⟨⟨rfl, rfl, rfl⟩, fun _ => rfl⟩
  records := fun _ _ _ h => h.trans ⟨⟨rfl, rfl, rfl⟩, fun _ => rfl⟩

/-- What waits makes no difference. -/
theorem SameTree.waits (h : SameTree i j) (waiting pending : Table (List String)) :
    SameTree i { j with waiting, pending } :=
  h.trans ⟨⟨rfl, rfl, rfl⟩, fun _ => rfl⟩

theorem sameTree_lookUp (node name reference : String) :
    Keeps (SameTree start) (lookUp node name reference) :=
  keeps_lookUp (fun _ _ _ _ => trivial) trivial fun i h _ => h.waits _ i.pending

theorem sameTree_assign (node name : String) (type : ValueType) (text : String) :
    Keeps (SameTree start) (assign node name type text) :=
  keeps_assign (fun _ => sameTree_lookUp node name text)
    (fun _ _ => isStable_sameTree.write trivial) (isStable_sameTree.recordVersionable node)
    fun _ _ _ _ => isStable_sameTree.write trivial

theorem sameTree_assignAll (node name : String) (type : ValueType) (texts : List String) :
    Keeps (SameTree start) (assignAll node name type texts) :=
  keeps_assignAll (fun _ => sameTree_lookUp node name)
    (fun _ _ _ => .modify fun i h => h.waits i.waiting _)
    (fun _ _ => isStable_sameTree.write trivial) fun _ _ _ => isStable_sameTree.write trivial

theorem sameTree_setProperty (name : String) (type : ValueType) (text : String) :
    Keeps (SameTree start) (setProperty name type text) :=
  setProperty_eq name type text ▸ keeps_setWith (isStable_sameTree.mention name)
    (keeps_current fun _ => trivial) fun _ _ _ _ _ => sameTree_assign _ _ _ _

theorem sameTree_setProperties (name : String) (type : ValueType) (texts : List String) :
    Keeps (SameTree start) (setProperties name type texts) :=
  setProperties_eq name type texts ▸ keeps_setWith (isStable_sameTree.mention name)
    (keeps_current fun _ => trivial) fun _ _ _ _ _ => sameTree_assignAll _ _ _ _

theorem sameTree_settleProperty (node id path : String) :
    Keeps (SameTree start) (settleProperty node id path) :=
  keeps_settleProperty (keeps_settledProperty fun i _ h => h.waits i.waiting _)
    fun owner _ property _ => isStable_sameTree.onRepository
      (.setProperty owner (Path.name path) property) trivial fun _ => rfl

theorem sameTree_settleReferences (node : String) :
    Keeps (SameTree start) (settleReferences node) :=
  keeps_settleReferences (fun i h => h.waits _ i.pending) fun _ _ _ _ _ _ _ _ _ _ =>
    sameTree_settleProperty _ _ _

/-! ## Closing nodes -/

theorem sameTree_settleNode (node : String) : Keeps (SameTree start) (settleNode node) :=
  keeps_settleNode (fun _ _ _ => isStable_sameTree.removeUnmentioned fun _ => trivial)
    (sameTree_settleReferences node)

/-- Closing a node only takes it from the open ones. -/
theorem closeNode_ok (h : outcome closeNode i = (.ok (), j)) :
    ∃ node rest, i.opened = node :: rest ∧ SameTree { i with opened := rest } j := by
  rw [closeNode_eq, outcome_bind, outcome_get] at h
  dsimp only at h
  cases hopened : i.opened with
  | nil =>
    rw [hopened] at h
    cases h
  | cons node rest =>
    rw [hopened] at h
    dsimp only at h
    rw [outcome_bind_of_ok (outcome_modify _ _)] at h
    have hsettle := (sameTree_settleNode node _ (.refl { i with opened := rest })).1
    rw [h] at hsettle
    exact ⟨node, rest, rfl, hsettle⟩

theorem keepsIdentifiers_closeNode : Keeps (KeepsIdentifiers start) closeNode :=
  keeps_closeNode fun _ _ _ _ _ =>
    ⟨fun _ h => h, SameTree.keeps fun _ => sameTree_settleNode _⟩

/-! ## Opening children -/

theorem keepsOutside_openChild (parent name : String) (type : Option String)
    (mixins : List String) :
    Keeps (KeepsOutside (Path.join parent name) start) (openChild parent name type mixins) :=
  isStable_keepsOutside.openChild (isStable_keepsOutside.clear rfl) (fun _ => trivial)
    (fun _ => trivial) (.modify fun _ h => h) type mixins

/-- Unless existing nodes are overwritten, opening a child removes none. -/
theorem keepsIdentifiers_openChild (hover : i.options.overwrite = false) (parent name : String)
    (type : Option String) (mixins : List String) :
    KeepsIdentifiers i (outcome (openChild parent name type mixins) i).2 := by
  have hclear : outcome (clear (Path.join parent name)) i = (.ok (), i) := by
    simp [clear, hover]
  rw [openChild_eq, outcome_bind_of_ok hclear]
  have hrest : Keeps (KeepsIdentifiers i) (do
      ensure parent name type
      addMixins (Path.join parent name) mixins
      enter (Path.join parent name)) :=
    .bind (isStable_keepsIdentifiers.ensure (fun _ => trivial) type) fun _ _ =>
      .bind (isStable_keepsIdentifiers.addMixins _ (fun _ => trivial) mixins) fun _ _ =>
        .modify fun _ h => h
  exact (hrest i fun _ _ hid => hid).1

/-- A child has been opened. -/
structure OpensChild (node : String) (i j : Import) : Prop where
  options : j.options = i.options
  opened : j.opened = node :: i.opened
  imported : ∀ p, p ∈ j.imported ↔ p ∈ i.imported ∨ p = node
  hasNode : j.repository.hasNode node = true
  outside : KeepsOutside node i j

theorem samePlace_clear (node : String) : Keeps (SamePlace start) (clear node) := by
  refine .bind .get fun _ _ => .bind .get fun _ _ => ?_
  split
  · intro i hi
    rw [onRepository, snd_outcome_onRepositoryWith]
    exact ⟨hi.trans ⟨rfl, rfl, rfl⟩, fun _ _ => trivial⟩
  · exact .pure trivial

/-- A child that is ensured is there. -/
theorem ensure_ok {type : Option String}
    (h : outcome (ensure parent name type) i = (.ok (), j)) :
    SamePlace i j ∧ j.repository.hasNode (Path.join parent name) = true := by
  cases hnode : i.repository.hasNode (Path.join parent name) with
  | true =>
    have hensure : outcome (ensure parent name type) i = (.ok (), i) := by simp [ensure, hnode]
    obtain rfl : i = j := congrArg Prod.snd (hensure.symm.trans h)
    exact ⟨⟨rfl, rfl, rfl⟩, hnode⟩
  | false =>
    have hensure : outcome (ensure parent name type) i = outcome (do
        discard (onRepository (Repository.addNode parent name (type.getD unstructuredType)))
        recordCreated (Path.join parent name)) i := by simp [ensure, hnode]
    rw [hensure, outcome_bind, outcome_discard] at h
    rcases i.repository.addNode_cases parent name (type.getD unstructuredType) with
      ⟨e, hadd⟩ | ⟨r, n, -, -, hadd, hr⟩
    · rw [hadd] at h
      cases h
    · rw [hadd] at h
      obtain ⟨-, rfl⟩ := Prod.mk.inj h
      exact ⟨⟨rfl, rfl, rfl⟩, Repository.hasNode_of_node? ((hr _).trans (if_pos rfl))⟩

theorem openChild_ok {type : Option String} {mixins : List String}
    (h : outcome (openChild parent name type mixins) i = (.ok (), j)) :
    OpensChild (Path.join parent name) i j := by
  have houtside := (keepsOutside_openChild parent name type mixins i fun _ _ _ hid => hid).1
  rw [h] at houtside
  rw [openChild_eq] at h
  obtain ⟨_, i₁, hclear, h⟩ := outcome_bind_eq_ok h
  obtain ⟨_, i₂, hensure, h⟩ := outcome_bind_eq_ok h
  obtain ⟨_, i₃, hmixins, henter⟩ := outcome_bind_eq_ok h
  have hplace₁ := (samePlace_clear (Path.join parent name) i (SamePlace.refl i)).1
  rw [hclear] at hplace₁
  obtain ⟨hplace₂, hnode⟩ := ensure_ok hensure
  have htree := (isStable_sameTree.addMixins (Path.join parent name) (fun _ => trivial) mixins i₂
    (.refl i₂)).1
  rw [hmixins] at htree
  have hplace := (hplace₁.trans hplace₂).trans htree.place
  obtain ⟨-, rfl⟩ := Prod.mk.inj henter
  refine ⟨hplace.options, congrArg _ hplace.opened, fun p => ?_, ?_, houtside⟩
  · rw [← hplace.imported]
    exact mem_including_iff
  · exact (htree.hasNode _).trans hnode

end ContentImport.Import
