import ContentImport.Proofs.Outcome
import ContentImport.Proofs.Table
import ContentImport.Proofs.Repository.Registry
import ContentImport.Repository.Basic

/-!
# Operations of a repository

* The outcome of each change of a repository, that is, what it returns and what it leaves, is
  written out once (`outcome_addNode` and so on).
* An `Operation` is a change with its arguments, and `Operation.after` is the repository that it
  leaves, whether it fails or not.
* `Step` says all that an operation can do (`Operation.step`).
* `Reachable` repositories come from a new one by operations. An authorizable is stored under its
  own identifier in them (`Reachable.id_eq`).
-/

namespace ContentImport.Repository

variable (r : Repository)

/-! ## Outcomes -/

theorem outcome_changeNode (path : String) (f : Node → Node) :
    outcome (changeNode path f) r =
      match r.node? path with
      | none => (.error (.nodeNotFound path), r)
      | some n => (.ok (), { r with nodes := r.nodes.insert path (f n) }) := by
  rw [changeNode, outcome_bind, outcome_get]
  cases h : r.node? path <;> simp [h]

theorem outcome_addNode (parent name type : String) :
    outcome (addNode parent name type) r =
      if Path.isName name = false then (.error (.invalidName name), r)
      else if r.hasNode (Path.join parent name) = true then
        (.error (.nodeExists (Path.join parent name)), r)
      else match r.node? parent with
        | none => (.error (.nodeNotFound parent), r)
        | some n =>
          (.ok (Path.join parent name),
            { r with
              nodes := (r.nodes.insert parent { n with children := n.children ++ [name] }).insert
                (Path.join parent name) { identifier := identifier r.serial, type := type }
              serial := r.serial + 1 }) := by
  by_cases hname : Path.isName name = true
  · by_cases hpath : r.hasNode (Path.join parent name) = true
    · simp [addNode, hname, hpath]
    · cases hparent : r.node? parent with
      | none => simp [addNode, outcome_changeNode, hname, hpath, hparent]
      | some n => simp [addNode, store, outcome_changeNode, hname, hpath, hparent]
  · simp [addNode, hname]

theorem outcome_removeNode (path : String) :
    outcome (removeNode path) r =
      match Path.parent? path with
      | none => (.error (.invalidName path), r)
      | some parent =>
        if r.hasNode path = false then (.error (.nodeNotFound path), r)
        else
          outcome (changeNode parent fun n =>
              { n with children := n.children.filter (· != Path.name path) })
            { r with
              nodes := r.nodes.filter fun p _ => !Path.isWithin p path
              policies := r.policies.filter fun p _ => !Path.isWithin p path } := by
  cases hparent : Path.parent? path with
  | none => simp [removeNode, hparent]
  | some parent =>
    by_cases hpath : r.hasNode path = true
    · simp [removeNode, hparent, hpath]
    · simp [removeNode, hparent, hpath]

theorem outcome_addMixin (path mixin : String) :
    outcome (addMixin path mixin) r =
      match r.node? path with
      | none => (.error (.nodeNotFound path), r)
      | some n =>
        if n.hasType mixin = true then (.ok false, r)
        else (.ok true,
          { r with nodes := r.nodes.insert path { n with mixins := n.mixins ++ [mixin] } }) := by
  cases hnode : r.node? path with
  | none => simp [addMixin, hnode]
  | some n =>
    by_cases htype : n.hasType mixin = true
    · simp [addMixin, hnode, htype]
    · simp [addMixin, outcome_changeNode, hnode, htype]

theorem outcome_setProperty (path name : String) (property : Property) :
    outcome (setProperty path name property) r =
      match r.node? path with
      | none => (.error (.nodeNotFound path), r)
      | some n =>
        (.ok (), { r with
          nodes := r.nodes.insert path
            { n with properties := n.properties.insert name property } }) :=
  outcome_changeNode r path _

theorem outcome_removeProperty (path name : String) :
    outcome (removeProperty path name) r =
      match r.node? path with
      | none => (.error (.nodeNotFound path), r)
      | some n =>
        (.ok (n.properties.get? name), { r with
          nodes := r.nodes.insert path { n with properties := n.properties.erase name } }) := by
  cases hnode : r.node? path <;>
    simp [removeProperty, property?, outcome_changeNode, hnode]

theorem outcome_createUser (id : String) (password : Option String) :
    outcome (createUser id password) r =
      match r.authorizables.get? id with
      | some a => if a.isGroup = true then (.error (.groupExists id), r) else (.ok false, r)
      | none =>
        (.ok true, { r with
          authorizables := r.authorizables.insert id (.user id password) }) := by
  cases hid : r.authorizables.get? id with
  | none =>
    simp [createUser, storeAuthorizable, hid]
    rfl
  | some a =>
    by_cases hgroup : a.isGroup = true
    · simp [createUser, hid, hgroup]
    · simp [createUser, hid, hgroup]

theorem outcome_createGroup (id : String) :
    outcome (createGroup id) r =
      match r.authorizables.get? id with
      | some a => if a.isGroup = true then (.ok false, r) else (.error (.userExists id), r)
      | none => (.ok true, { r with authorizables := r.authorizables.insert id (.group id) }) := by
  cases hid : r.authorizables.get? id with
  | none =>
    simp [createGroup, storeAuthorizable, hid]
    rfl
  | some a =>
    by_cases hgroup : a.isGroup = true
    · simp [createGroup, hid, hgroup]
    · simp [createGroup, hid, hgroup]

theorem outcome_addMember (group member : String) :
    outcome (addMember group member) r =
      if r.authorizables.contains member = false then (.ok false, r)
      else match r.authorizables.get? group with
        | none => (.error (.authorizableNotFound group), r)
        | some g =>
          if g.isGroup = false then (.error (.authorizableNotFound group), r)
          else if member ∈ g.members then (.ok false, r)
          else
            (.ok true, { r with
              authorizables :=
                r.authorizables.insert group { g with members := g.members ++ [member] } }) := by
  by_cases hmember : r.authorizables.contains member = true
  · cases hid : r.authorizables.get? group with
    | none => simp [addMember, hmember, hid]
    | some g =>
      by_cases hgroup : g.isGroup = true
      · by_cases hin : member ∈ g.members
        · simp [addMember, hmember, hid, hgroup, hin]
        · simp [addMember, hmember, hid, hgroup, hin]
      · simp [addMember, hmember, hid, hgroup]
  · simp [addMember, hmember]

theorem outcome_setAuthorizableProperty (id name : String) (value : Value) :
    outcome (setAuthorizableProperty id name value) r =
      match r.authorizables.get? id with
      | none => (.error (.authorizableNotFound id), r)
      | some a =>
        (.ok (), { r with
          authorizables := r.authorizables.insert id
            { a with properties := a.properties.insert name value } }) := by
  cases hid : r.authorizables.get? id <;> simp [setAuthorizableProperty, hid]

theorem outcome_setAcl (path : String) (acl : AccessList) :
    outcome (setAcl path acl) r =
      if r.hasNode path = false then (.error (.nodeNotFound path), r)
      else (.ok (), { r with policies := r.policies.insert path acl }) := by
  by_cases hpath : r.hasNode path = true <;> simp [setAcl, hpath]

theorem outcome_updateEntries (path principal : String) (grants : List Grant)
    (order : Option String) :
    outcome (updateEntries path principal grants order) r =
      if r.hasNode path = false then (.error (.nodeNotFound path), r)
      else match r.updated (r.acl path) principal grants order with
        | .error e => (.error (.access e), r)
        | .ok acl => (.ok (), { r with policies := r.policies.insert path acl }) := by
  by_cases hpath : r.hasNode path = true
  · rcases hacl : r.updated (r.acl path) principal grants order with e | acl
    · simp [updateEntries, Change.ofAccess, hpath, hacl]
    · simp [updateEntries, Change.ofAccess, outcome_setAcl, hpath, hacl]
  · simp [updateEntries, hpath]

/-! ## Operations -/

/-- A public operation that can change a repository, with its arguments. -/
inductive Operation
  | addNode (parent name type : String)
  | removeNode (path : String)
  | addMixin (path mixin : String)
  | setProperty (path name : String) (property : Property)
  | removeProperty (path name : String)
  | createUser (id : String) (password : Option String)
  | createGroup (id : String)
  | addMember (group member : String)
  | setAuthorizableProperty (id name : String) (value : Value)
  | setAcl (path : String) (acl : AccessList)
  | updateEntries (path principal : String) (grants : List Grant) (order : Option String)

namespace Operation

/-- The change that an operation is, without the value that it returns. -/
def change : Operation → Change Unit
  | addNode parent name type => (fun _ => ()) <$> Repository.addNode parent name type
  | removeNode path => Repository.removeNode path
  | addMixin path mixin => (fun _ => ()) <$> Repository.addMixin path mixin
  | setProperty path name property => Repository.setProperty path name property
  | removeProperty path name => (fun _ => ()) <$> Repository.removeProperty path name
  | createUser id password => (fun _ => ()) <$> Repository.createUser id password
  | createGroup id => (fun _ => ()) <$> Repository.createGroup id
  | addMember group member => (fun _ => ()) <$> Repository.addMember group member
  | setAuthorizableProperty id name value => Repository.setAuthorizableProperty id name value
  | setAcl path acl => Repository.setAcl path acl
  | updateEntries path principal grants order =>
    Repository.updateEntries path principal grants order

/-- The repository that an operation leaves. -/
def after (op : Operation) (r : Repository) : Repository := (outcome op.change r).2

end Operation

/-! ## Steps -/

/-- All that an operation can do to a repository. -/
inductive Step (r : Repository) : Operation → Repository → Prop
  /-- The operation fails, or finds nothing to do. -/
  | unchanged (op : Operation) : Step r op r
  | addNode {parent name type : String} {n : Node} (hname : Path.isName name = true)
      (hnew : r.hasNode (Path.join parent name) = false) (hparent : r.node? parent = some n) :
      Step r (.addNode parent name type)
        { r with
          nodes := (r.nodes.insert parent { n with children := n.children ++ [name] }).insert
            (Path.join parent name) { identifier := identifier r.serial, type := type }
          serial := r.serial + 1 }
  | removeNode {path parent : String} {n : Node} (hparent : Path.parent? path = some parent)
      (hpath : r.hasNode path = true)
      (hn : (r.nodes.filter fun p _ => !Path.isWithin p path).get? parent = some n) :
      Step r (.removeNode path)
        { r with
          nodes := (r.nodes.filter fun p _ => !Path.isWithin p path).insert parent
            { n with children := n.children.filter (· != Path.name path) }
          policies := r.policies.filter fun p _ => !Path.isWithin p path }
  /-- The parent of the removed node is no node. -/
  | removeOrphan {path parent : String} (hparent : Path.parent? path = some parent)
      (hpath : r.hasNode path = true)
      (hn : (r.nodes.filter fun p _ => !Path.isWithin p path).get? parent = none) :
      Step r (.removeNode path)
        { r with
          nodes := r.nodes.filter fun p _ => !Path.isWithin p path
          policies := r.policies.filter fun p _ => !Path.isWithin p path }
  | addMixin {path mixin : String} {n : Node} (hn : r.node? path = some n)
      (hnew : n.hasType mixin = false) :
      Step r (.addMixin path mixin)
        { r with nodes := r.nodes.insert path { n with mixins := n.mixins ++ [mixin] } }
  | setProperty {path name : String} {n : Node} (hn : r.node? path = some n)
      (property : Property) :
      Step r (.setProperty path name property)
        { r with
          nodes := r.nodes.insert path
            { n with properties := n.properties.insert name property } }
  | removeProperty {path name : String} {n : Node} (hn : r.node? path = some n) :
      Step r (.removeProperty path name)
        { r with nodes := r.nodes.insert path { n with properties := n.properties.erase name } }
  | createUser {id : String} (hid : r.authorizables.get? id = none) (password : Option String) :
      Step r (.createUser id password)
        { r with authorizables := r.authorizables.insert id (.user id password) }
  | createGroup {id : String} (hid : r.authorizables.get? id = none) :
      Step r (.createGroup id)
        { r with authorizables := r.authorizables.insert id (.group id) }
  | addMember {group member : String} {g : Authorizable}
      (hmember : r.authorizables.contains member = true)
      (hg : r.authorizables.get? group = some g) (hgroup : g.isGroup = true)
      (hnew : member ∉ g.members) :
      Step r (.addMember group member)
        { r with
          authorizables :=
            r.authorizables.insert group { g with members := g.members ++ [member] } }
  | setAuthorizableProperty {id name : String} {a : Authorizable}
      (ha : r.authorizables.get? id = some a) (value : Value) :
      Step r (.setAuthorizableProperty id name value)
        { r with
          authorizables :=
            r.authorizables.insert id { a with properties := a.properties.insert name value } }
  | setAcl {path : String} (hpath : r.hasNode path = true) (acl : AccessList) :
      Step r (.setAcl path acl) { r with policies := r.policies.insert path acl }
  | updateEntries {path principal : String} {grants : List Grant} {order : Option String}
      {acl : AccessList} (hpath : r.hasNode path = true)
      (hacl : r.updated (r.acl path) principal grants order = .ok acl) :
      Step r (.updateEntries path principal grants order)
        { r with policies := r.policies.insert path acl }

namespace Operation

/-! An operation that looks at more than one thing leaves the repository as it is at the first one
that does not fit. -/

theorem step_addNode (parent name type : String) :
    Step r (.addNode parent name type) ((addNode parent name type).after r) := by
  rw [after, change, snd_outcome_map, outcome_addNode]
  split
  · exact .unchanged _
  next hname =>
  split
  · exact .unchanged _
  next hnew =>
  split
  · exact .unchanged _
  · next hparent => exact .addNode (by simpa using hname) (by simpa using hnew) hparent

theorem step_removeNode (path : String) :
    Step r (.removeNode path) ((removeNode path).after r) := by
  rw [after, change, outcome_removeNode]
  split
  · exact .unchanged _
  next hparent =>
  split
  · exact .unchanged _
  next hpath =>
  rw [outcome_changeNode]
  split
  · next hn => exact .removeOrphan hparent (by simpa using hpath) hn
  · next hn => exact .removeNode hparent (by simpa using hpath) hn

theorem step_addMixin (path mixin : String) :
    Step r (.addMixin path mixin) ((addMixin path mixin).after r) := by
  rw [after, change, snd_outcome_map, outcome_addMixin]
  split
  · exact .unchanged _
  next hn =>
  split
  · exact .unchanged _
  · next hnew => exact .addMixin hn (by simpa using hnew)

theorem step_addMember (group member : String) :
    Step r (.addMember group member) ((addMember group member).after r) := by
  rw [after, change, snd_outcome_map, outcome_addMember]
  split
  · exact .unchanged _
  next hmember =>
  split
  · exact .unchanged _
  next hg =>
  split
  · exact .unchanged _
  next hgroup =>
  split
  · exact .unchanged _
  · next hnew => exact .addMember (by simpa using hmember) hg (by simpa using hgroup) hnew

theorem step_updateEntries (path principal : String) (grants : List Grant)
    (order : Option String) :
    Step r (.updateEntries path principal grants order)
      ((updateEntries path principal grants order).after r) := by
  rw [after, change, outcome_updateEntries]
  split
  · exact .unchanged _
  next hpath =>
  split
  · exact .unchanged _
  · next hacl => exact .updateEntries (by simpa using hpath) hacl

/-- **What an operation leaves is one of the steps.** -/
theorem step (op : Operation) : Step r op (op.after r) := by
  cases op with
  | addNode parent name type => exact step_addNode r parent name type
  | removeNode path => exact step_removeNode r path
  | addMixin path mixin => exact step_addMixin r path mixin
  | setProperty path name property =>
    rw [after, change, outcome_setProperty]
    split
    · exact .unchanged _
    · next hn => exact .setProperty hn property
  | removeProperty path name =>
    rw [after, change, snd_outcome_map, outcome_removeProperty]
    split
    · exact .unchanged _
    · next hn => exact .removeProperty hn
  | createUser id password =>
    rw [after, change, snd_outcome_map, outcome_createUser]
    split
    · split <;> exact .unchanged _
    · next hid => exact .createUser hid password
  | createGroup id =>
    rw [after, change, snd_outcome_map, outcome_createGroup]
    split
    · split <;> exact .unchanged _
    · next hid => exact .createGroup hid
  | addMember group member => exact step_addMember r group member
  | setAuthorizableProperty id name value =>
    rw [after, change, outcome_setAuthorizableProperty]
    split
    · exact .unchanged _
    · next ha => exact .setAuthorizableProperty ha value
  | setAcl path acl =>
    rw [after, change, outcome_setAcl]
    split
    · exact .unchanged _
    · next hpath => exact .setAcl (by simpa using hpath) acl
  | updateEntries path principal grants order =>
    exact step_updateEntries r path principal grants order

end Operation

section Step

variable {r} {r' : Repository} {op : Operation} (h : Step r op r')

include h

theorem Step.registry_eq : r'.registry = r.registry := by
  cases h <;> rfl

theorem Step.restrictions_eq : r'.restrictions = r.restrictions := by
  cases h <;> rfl

/-- A step keeps authorizables under their own identifiers. -/
theorem Step.id_eq (hid : ∀ id a, r.authorizables.get? id = some a → a.id = id) :
    ∀ id a, r'.authorizables.get? id = some a → a.id = id := by
  cases h with
  | createUser => exact Table.forall_get?_insert hid rfl
  | createGroup => exact Table.forall_get?_insert hid rfl
  | addMember _ hg =>
    have hname := hid _ _ hg
    exact Table.forall_get?_insert hid hname
  | setAuthorizableProperty ha =>
    have hname := hid _ _ ha
    exact Table.forall_get?_insert hid hname
  | _ => exact hid

/-- A step keeps identifiers in the form that those of new nodes have. -/
theorem Step.identifier_eq
    (hid : ∀ path n, r.node? path = some n → ∃ serial, n.identifier = identifier serial) :
    ∀ path n, r'.node? path = some n → ∃ serial, n.identifier = identifier serial := by
  have hfilter : ∀ (p : String → Node → Bool) path n, (r.nodes.filter p).get? path = some n →
      ∃ serial, n.identifier = identifier serial := by
    intro p path n hn
    rw [Table.get?_filter] at hn
    exact hid path n (Option.filter_eq_some_iff.1 hn).1
  cases h with
  | addNode _ _ hparent =>
    have hform := hid _ _ hparent
    exact Table.forall_get?_insert (Table.forall_get?_insert hid hform) ⟨r.serial, rfl⟩
  | removeNode _ _ hn =>
    have hform := hfilter _ _ _ hn
    exact Table.forall_get?_insert (hfilter _) hform
  | removeOrphan => exact hfilter _
  | addMixin hn =>
    have hform := hid _ _ hn
    exact Table.forall_get?_insert hid hform
  | setProperty hn =>
    have hform := hid _ _ hn
    exact Table.forall_get?_insert hid hform
  | removeProperty hn =>
    have hform := hid _ _ hn
    exact Table.forall_get?_insert hid hform
  | _ => exact hid

end Step

/-! ## Reachable repositories -/

/-- The repositories that come from a new one by operations. -/
inductive Reachable : Repository → Prop
  | new {registry : Registry} (h : registry.IsBuilt) : Reachable (new registry)
  | step {r : Repository} (h : Reachable r) (op : Operation) : Reachable (op.after r)

variable {r}

/-- A reachable repository supports the standard restrictions and no others. -/
theorem Reachable.restrictions_eq (h : Reachable r) : r.restrictions = standardRestrictions := by
  induction h with
  | new => rfl
  | step _ op ih => rwa [(op.step _).restrictions_eq]

theorem Reachable.id_eq (h : Reachable r) :
    ∀ id a, r.authorizables.get? id = some a → a.id = id := by
  induction h with
  | new =>
    intro id a h
    cases h
  | step _ op ih => exact (op.step _).id_eq ih

/-- Nodes are numbered, and their identifiers are made from the numbers. -/
theorem Reachable.exists_identifier_eq (h : Reachable r) :
    ∀ path n, r.node? path = some n → ∃ serial, n.identifier = identifier serial := by
  induction h with
  | new =>
    refine Table.forall_get?_insert ?_ ⟨0, rfl⟩
    intro path n hn
    cases hn
  | step _ op ih => exact (op.step _).identifier_eq ih

/-- A principal that a reachable repository knows has the name by which it was asked for. -/
theorem Reachable.name_eq (h : Reachable r) {name : String} {p : Principal}
    (hp : r.principal name = .ok p) : p.name = name := by
  rw [principal] at hp
  split at hp
  · next a ha =>
    obtain rfl := Except.ok.inj hp
    exact h.id_eq name a ha
  · split at hp
    · next heveryone =>
      obtain rfl := Except.ok.inj hp
      exact heveryone.symm
    · cases hp

end ContentImport.Repository
