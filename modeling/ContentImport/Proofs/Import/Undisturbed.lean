import ContentImport.Proofs.Import.Session
import ContentImport.Proofs.Import.Step

/-!
# What leaves a property alone

Most actions of an import neither set a given property nor close a node.

* `Progress` is what becomes of the nodes. Those there were remain, with their identifiers; new ones
  are open, or were closed on the way.
* `Undisturbed` says what such an action leaves as it is: the property, and how it waits for nodes.
* Opening a child only adds to the nodes (`OnlyAdds`), and so disturbs no property
  (`openChild_cases`).
* Setting a property disturbs no other one, unless it is set to references and its path stands for
  the other one as well (`undisturbed_assign`, `undisturbed_assignAll`).
-/

namespace ContentImport.Import

variable {owner name : String} {i j k : Import}

/-- Whether a path that waits stands for a property. That may be so of several paths, since names of
properties may have slashes. -/
def standsFor (owner name path : String) : Bool :=
  Path.parent? path == some owner && Path.name path == name

theorem standsFor_join (howner : owner ≠ "") (hname : name ≠ "" ∧ '/' ∉ name.toList) :
    standsFor owner name (Path.join owner name) = true := by
  simp [standsFor, Path.parent?_join howner hname.2 (Path.join_ne_root hname.1),
    Path.name_join hname.2]

/-- The path of a property whose name has no slash stands for no other property. -/
theorem eq_of_standsFor_join {node other : String} (hnode : node ≠ "")
    (hother : '/' ∉ other.toList) (h : standsFor owner name (Path.join node other) = true) :
    (node, other) = (owner, name) := by
  obtain ⟨hparent, hname⟩ := Bool.and_eq_true_iff.1 h
  rw [beq_iff_eq] at hparent hname
  have hroot : Path.join node other ≠ Path.root := by
    intro heq
    rw [heq] at hparent
    cases hparent
  rw [Path.parent?_join hnode hother hroot] at hparent
  rw [Path.name_join hother] at hname
  exact Prod.ext (Option.some.inj hparent) hname

/-- The paths that wait for a node and stand for a property. -/
def waits (i : Import) (owner name node : String) : List String :=
  ((i.waiting.get? node).getD []).filter (standsFor owner name)

/-- A path that waits and does not stand for a property does not make it wait. -/
theorem waits_await {path : String} (hpath : standsFor owner name path = false)
    (target node : String) :
    (i.await target path).waits owner name node = i.waits owner name node := by
  simp only [await, waits, Table.get?_insert]
  split
  · next hnode => simp [hnode, hpath]
  · rfl

/-- What waits goes on to wait when something else is to wait. -/
theorem mem_waits_await {node waiting : String} (h : waiting ∈ i.waits owner name node)
    (target path : String) : waiting ∈ (i.await target path).waits owner name node := by
  obtain ⟨hmem, hstands⟩ := List.mem_filter.1 h
  refine List.mem_filter.2 ⟨?_, hstands⟩
  rw [await, Table.get?_insert]
  split
  · next hnode => exact List.mem_append_left _ (hnode ▸ hmem)
  · exact hmem

/-- What waited for a node waits no more. -/
theorem waits_erase (i : Import) (node q : String) :
    waits { i with waiting := i.waiting.erase node } owner name q =
      if q = node then [] else i.waits owner name q := by
  rw [waits, Table.get?_erase]
  split <;> rfl

/-- The identifier of the node at a path. -/
def identifier? (i : Import) (path : String) : Option String :=
  (i.repository.node? path).map Node.identifier

theorem isSome_identifier? (i : Import) (path : String) :
    (i.identifier? path).isSome = i.repository.hasNode path := by
  rw [identifier?, Option.isSome_map]
  rfl

/-! ## Progress -/

/-- On the way from one state to another some nodes were closed. The nodes there were remain, and
the new ones are open or were closed. -/
structure Progress (closings : List (String × String)) (i j : Import) : Prop where
  options : j.options = i.options
  identifier : ∀ path id, i.identifier? path = some id → j.identifier? path = some id
  fresh : ∀ path, j.repository.hasNode path = true → i.repository.hasNode path = true ∨
    path ∈ j.opened ∨ path ∈ closings.map Prod.fst
  opened : ∀ path ∈ i.opened, path ∈ j.opened ∨ path ∈ closings.map Prod.fst
  openedNode : ∀ path ∈ j.opened, path ∈ i.opened ∨ j.repository.hasNode path = true
  closed : ∀ c ∈ closings, j.identifier? c.1 = some c.2
  mentioned : ∀ m ∈ i.mentioned, m ∈ j.mentioned

namespace Progress

variable {closings closings' : List (String × String)}

theorem refl (i : Import) : Progress [] i i where
  options := rfl
  identifier := fun _ _ h => h
  fresh := fun _ h => .inl h
  opened := fun _ h => .inl h
  openedNode := fun _ h => .inl h
  closed := List.forall_mem_nil _
  mentioned := fun _ h => h

/-- The nodes there were remain. -/
theorem hasNode (h : Progress closings i j) {path : String}
    (hpath : i.repository.hasNode path = true) : j.repository.hasNode path = true := by
  rw [← isSome_identifier?, Option.isSome_iff_exists] at hpath ⊢
  obtain ⟨id, hid⟩ := hpath
  exact ⟨id, h.identifier path id hid⟩

theorem trans (h : Progress closings i j) (h' : Progress closings' j k) :
    Progress (closings ++ closings') i k where
  options := h'.options.trans h.options
  identifier := fun path id hid => h'.identifier path id (h.identifier path id hid)
  fresh := by
    intro path hpath
    rw [List.map_append, List.mem_append]
    rcases h'.fresh path hpath with hpath | hpath | hpath
    · rcases h.fresh path hpath with hpath | hpath | hpath
      · exact .inl hpath
      · exact .inr ((h'.opened path hpath).imp_right .inr)
      · exact .inr (.inr (.inl hpath))
    · exact .inr (.inl hpath)
    · exact .inr (.inr (.inr hpath))
  opened := by
    intro path hpath
    rw [List.map_append, List.mem_append]
    rcases h.opened path hpath with hpath | hpath
    · exact (h'.opened path hpath).imp_right .inr
    · exact .inr (.inl hpath)
  openedNode := by
    intro path hpath
    rcases h'.openedNode path hpath with hpath | hpath
    · exact (h.openedNode path hpath).imp_right h'.hasNode
    · exact .inr hpath
  closed := by
    intro c hc
    rcases List.mem_append.1 hc with hc | hc
    · exact h'.identifier _ _ (h.closed c hc)
    · exact h'.closed c hc
  mentioned := fun m hm => h'.mentioned m (h.mentioned m hm)

/-- Nodes and their identifiers are the same, and so are the open nodes. -/
theorem of_identifier (hoptions : j.options = i.options) (hopened : j.opened = i.opened)
    (hidentifier : ∀ path, j.identifier? path = i.identifier? path)
    (hmentioned : ∀ m ∈ i.mentioned, m ∈ j.mentioned) : Progress [] i j where
  options := hoptions
  identifier := fun path _ hid => (hidentifier path).trans hid
  fresh := by
    intro path hpath
    rw [← isSome_identifier?, hidentifier, isSome_identifier?] at hpath
    exact .inl hpath
  opened := fun _ hpath => .inl (hopened ▸ hpath)
  openedNode := fun _ hpath => .inl (hopened ▸ hpath)
  closed := List.forall_mem_nil _
  mentioned := hmentioned

/-- What is not about nodes, and what else the content mentions, makes no difference. -/
theorem of_eq (h : Progress closings i j) (hrepository : k.repository = j.repository)
    (hoptions : k.options = j.options) (hopened : k.opened = j.opened)
    (hmentioned : ∀ m ∈ j.mentioned, m ∈ k.mentioned) : Progress closings i k where
  options := hoptions.trans h.options
  identifier := by
    intro path id hid
    rw [identifier?, hrepository]
    exact h.identifier path id hid
  fresh := by
    rw [hrepository, hopened]
    exact h.fresh
  opened := hopened ▸ h.opened
  openedNode := by
    rw [hrepository, hopened]
    exact h.openedNode
  closed := by
    intro c hc
    rw [identifier?, hrepository]
    exact h.closed c hc
  mentioned := fun m hm => hmentioned m (h.mentioned m hm)

end Progress

/-! ## Undisturbed properties -/

/-- From one state to another nothing happened that concerns a property, and no node was closed or
removed. -/
structure Undisturbed (owner name : String) (i j : Import) : Prop extends Progress [] i j where
  property : j.repository.property? owner name = i.repository.property? owner name
  pending : j.pending.get? (Path.join owner name) = i.pending.get? (Path.join owner name)
  waits : ∀ node, j.waits owner name node = i.waits owner name node

namespace Undisturbed

theorem refl (owner name : String) (i : Import) : Undisturbed owner name i i where
  toProgress := .refl i
  property := rfl
  pending := rfl
  waits := fun _ => rfl

theorem trans (h : Undisturbed owner name i j) (h' : Undisturbed owner name j k) :
    Undisturbed owner name i k where
  toProgress := h.toProgress.trans h'.toProgress
  property := h'.property.trans h.property
  pending := h'.pending.trans h.pending
  waits := fun node => (h'.waits node).trans (h.waits node)

end Undisturbed

/-! ## Opening nodes -/

section Opening

variable {r r' : Repository} {path parent child : String} {rest : List String}

/-- A repository has the nodes of another one, their identifiers and properties being the same, and
besides them at most a node without properties. -/
structure OnlyAdds (path : String) (r r' : Repository) : Prop where
  node : ∀ q n, r.node? q = some n →
    ∃ n', r'.node? q = some n' ∧ n'.identifier = n.identifier ∧ n'.properties = n.properties
  fresh : ∀ q n', r.node? q = none → r'.node? q = some n' →
    q = path ∧ n'.properties = Table.empty

theorem OnlyAdds.property?_eq (h : OnlyAdds path r r') (owner name : String) :
    r'.property? owner name = r.property? owner name := by
  rw [Repository.property?, Repository.property?]
  cases hn : r.node? owner with
  | some n =>
    obtain ⟨n', hn', -, hproperties⟩ := h.node owner n hn
    rw [hn', Option.bind_some, Option.bind_some, hproperties]
  | none =>
    cases hn' : r'.node? owner with
    | none => rfl
    | some n' =>
      rw [Option.bind_some, (h.fresh owner n' hn hn').2]
      rfl

theorem OnlyAdds.hasNode (h : OnlyAdds path r r') {q : String} (hq : r.hasNode q = true) :
    r'.hasNode q = true := by
  obtain ⟨n, hn⟩ := Repository.exists_node?_of_hasNode hq
  obtain ⟨n', hn', -⟩ := h.node q n hn
  exact Repository.hasNode_of_node? hn'

/-- Adding a node that is open from then on disturbs no property. -/
theorem OnlyAdds.undisturbed (h : OnlyAdds path i.repository j.repository) (new : List String)
    (hopened : j.opened = new ++ i.opened) (hpath : path ∈ new)
    (hnew : ∀ q ∈ new, j.repository.hasNode q = true) (hoptions : j.options = i.options)
    (hmentioned : j.mentioned = i.mentioned) (hpending : j.pending = i.pending)
    (hwaiting : j.waiting = i.waiting) (owner name : String) : Undisturbed owner name i j where
  options := hoptions
  identifier := by
    intro q id hid
    obtain ⟨n, hn, rfl⟩ := Option.map_eq_some_iff.1 hid
    obtain ⟨n', hn', hidentifier, -⟩ := h.node q n hn
    rw [identifier?, hn', Option.map_some, hidentifier]
  fresh := by
    intro q hq
    cases hn : i.repository.node? q with
    | some n => exact .inl (Repository.hasNode_of_node? hn)
    | none =>
      obtain ⟨n', hn'⟩ := Repository.exists_node?_of_hasNode hq
      obtain rfl := (h.fresh q n' hn hn').1
      rw [hopened]
      exact .inr (.inl (List.mem_append_left _ hpath))
  opened := by
    intro q hq
    rw [hopened]
    exact .inl (List.mem_append_right _ hq)
  openedNode := by
    intro q hq
    rw [hopened] at hq
    exact (List.mem_append.1 hq).symm.imp_right (hnew q)
  closed := List.forall_mem_nil _
  mentioned := by
    intro m hm
    rwa [hmentioned]
  property := h.property?_eq owner name
  pending := by rw [hpending]
  waits := by
    intro node
    rw [waits, waits, hwaiting]

theorem foldl_withMixin_identifier (mixins : List String) (n : Node) :
    (mixins.foldl withMixin n).identifier = n.identifier ∧
      (mixins.foldl withMixin n).properties = n.properties := by
  induction mixins generalizing n with
  | nil => exact ⟨rfl, rfl⟩
  | cons mixin mixins ih =>
    have hmixin : (withMixin n mixin).identifier = n.identifier ∧
        (withMixin n mixin).properties = n.properties := by
      unfold withMixin
      split <;> exact ⟨rfl, rfl⟩
    obtain ⟨hidentifier, hproperties⟩ := ih (withMixin n mixin)
    exact ⟨hidentifier.trans hmixin.1, hproperties.trans hmixin.2⟩

/-- A node takes the place of one with its identifier and its properties. -/
theorem onlyAdds_of_replaced {n n' : Node} (hn : r.node? child = some n)
    (hidentifier : n'.identifier = n.identifier) (hproperties : n'.properties = n.properties)
    (hr' : ∀ q, r'.node? q = if child = q then some n' else r.node? q) : OnlyAdds path r r' where
  node := by
    intro q m hm
    rw [hr']
    split
    · next hq =>
      rw [← hq, hn] at hm
      obtain rfl := Option.some.inj hm
      exact ⟨n', rfl, hidentifier, hproperties⟩
    · exact ⟨m, hm, rfl, rfl⟩
  fresh := by
    intro q m hnone hm
    rw [hr'] at hm
    split at hm
    · next hq =>
      rw [← hq, hn] at hnone
      cases hnone
    · rw [hnone] at hm
      cases hm

/-- A leaf is added that has no properties. -/
theorem onlyAdds_of_leaf {n leaf : Node} (hnew : r.hasNode child = false)
    (hparent : r.node? parent = some n) (hleaf : leaf.properties = Table.empty)
    {names : List String} (hr' : ∀ q, r'.node? q = if child = q then some leaf
      else if parent = q then some { n with children := names } else r.node? q) :
    OnlyAdds child r r' where
  node := by
    intro q m hm
    rw [hr', if_neg]
    · split
      · next hq =>
        rw [← hq, hparent] at hm
        obtain rfl := Option.some.inj hm
        exact ⟨_, rfl, rfl, rfl⟩
      · exact ⟨m, hm, rfl, rfl⟩
    · rintro rfl
      rw [Repository.hasNode_of_node? hm] at hnew
      cases hnew
  fresh := by
    intro q m hnone hm
    rw [hr'] at hm
    split at hm
    · next hq => exact ⟨hq.symm, Option.some.inj hm ▸ hleaf⟩
    split at hm
    · next hq =>
      rw [← hq, hparent] at hnone
      cases hnone
    · rw [hnone] at hm
      cases hm

/-- **Opening a child disturbs no property**; the child is the current node then. -/
theorem openChild_cases (hover : i.options.overwrite = false) (parent child : String)
    (type : Option String) (mixins : List String) :
    (∃ e, outcome (openChild parent child type mixins) i = (.error e, i)) ∨
      ∃ j, outcome (openChild parent child type mixins) i = (.ok (), j) ∧
        j.opened = Path.join parent child :: i.opened ∧
        ∀ owner name, Undisturbed owner name i j := by
  cases hnode : i.repository.hasNode (Path.join parent child) with
  | false =>
    rcases openChild_cases_of_new hover type mixins hnode with
      hfail | ⟨r, n, -, hparent, hok, hr⟩
    · exact .inl hfail
    · have hadds := onlyAdds_of_leaf hnode hparent (foldl_withMixin_identifier mixins _).2 hr
      have hchild : ∀ q ∈ [Path.join parent child], r.hasNode q = true :=
        List.forall_mem_singleton.2 (Repository.hasNode_of_node? ((hr _).trans (if_pos rfl)))
      exact .inr ⟨_, hok, rfl, hadds.undisturbed [Path.join parent child] rfl
        List.mem_cons_self hchild rfl rfl rfl rfl⟩
  | true =>
    obtain ⟨n, hn⟩ := Repository.exists_node?_of_hasNode hnode
    obtain ⟨r, hok, hr⟩ := exists_outcome_openChild_of_node hover type mixins hn
    have hsame := foldl_withMixin_identifier mixins n
    have hadds : OnlyAdds (Path.join parent child) i.repository r :=
      onlyAdds_of_replaced hn hsame.1 hsame.2 hr
    have hchild : ∀ q ∈ [Path.join parent child], r.hasNode q = true :=
      List.forall_mem_singleton.2 (Repository.hasNode_of_node? ((hr _).trans (if_pos rfl)))
    exact .inr ⟨_, hok, rfl, hadds.undisturbed [Path.join parent child] rfl
      List.mem_cons_self hchild rfl rfl rfl rfl⟩

theorem undisturbed_of_openChild_ok (hover : i.options.overwrite = false) {type : Option String}
    {mixins : List String} (h : outcome (openChild parent child type mixins) i = (.ok (), j))
    (owner name : String) : Undisturbed owner name i j := by
  rcases openChild_cases hover parent child type mixins with ⟨e, hfail⟩ | ⟨k, hok, -, hspared⟩
  · cases hfail.symm.trans h
  · obtain rfl := congrArg Prod.snd (hok.symm.trans h)
    exact hspared owner name

end Opening

/-! ## Other properties -/

section Properties

variable {start : Import} {node other : String}

theorem mem_including_self (l : List String) (a : String) : a ∈ including l a := by
  unfold including
  split
  · next h => exact h
  · exact List.mem_append_right _ List.mem_cons_self

theorem mem_including_iff {l : List String} {a b : String} :
    b ∈ including l a ↔ b ∈ l ∨ b = a :=
  ⟨mem_including, fun h => h.elim mem_including_of_mem fun hba => hba ▸ mem_including_self l a⟩

/-- An operation concerns authorizables or access-control lists, but no nodes. -/
def LeavesNodes : Repository.Operation → Prop
  | .createUser _ _ | .createGroup _ | .addMember _ _ | .setAuthorizableProperty _ _ _
  | .setAcl _ _ | .updateEntries _ _ _ _ => True
  | _ => False

theorem nodes_after {op : Repository.Operation} (hop : LeavesNodes op) (r : Repository) :
    (op.after r).nodes = r.nodes := by
  have hstep := op.step r
  generalize op.after r = r' at hstep
  cases hstep <;> first | rfl | cases hop

theorem isStable_undisturbed : IsStable LeavesNodes (Undisturbed owner name start) where
  principals := by
    intro op hop
    cases op <;> trivial
  operation := by
    intro op hop i hi
    have hnode : ∀ path, (op.after i.repository).node? path = i.repository.node? path := by
      intro path
      rw [Repository.node?, nodes_after hop]
      rfl
    have hidentifier : ∀ path,
        identifier? { i with repository := op.after i.repository } path = i.identifier? path := by
      intro path
      rw [identifier?, identifier?, hnode]
    refine hi.trans ⟨.of_identifier rfl rfl hidentifier fun _ h => h, ?_, rfl, fun _ => rfl⟩
    rw [Repository.property?, hnode]
    rfl
  notes := fun _ _ _ hmentioned h =>
    ⟨h.of_eq rfl rfl rfl hmentioned, h.property, h.pending, h.waits⟩
  records := fun _ _ _ h => ⟨h.of_eq rfl rfl rfl fun _ hm => hm, h.property, h.pending, h.waits⟩

/-- Changing properties changes no identifier. -/
theorem map_identifier_insert {r : Repository} {n : Node} (hn : r.node? node = some n)
    (properties : Table Property) (path : String) :
    ((r.nodes.insert node { n with properties := properties }).get? path).map Node.identifier =
      (r.node? path).map Node.identifier := by
  rw [Table.get?_insert]
  split
  · next hnode => rw [← hnode, hn, Option.map_some, Option.map_some]
  · rfl

/-- Nor does it change a property of another node, or one that is left as it is. -/
theorem property?_replace {r : Repository} {n : Node} (hn : r.node? node = some n)
    {properties : Table Property}
    (hsame : node = owner → properties.get? name = n.properties.get? name) :
    ((r.nodes.insert node { n with properties := properties }).get? owner).bind
      (fun n => n.properties.get? name) = r.property? owner name := by
  rw [Table.get?_insert, Repository.property?]
  split
  · next hnode =>
    rw [← hnode, hn, Option.bind_some, Option.bind_some, hsame hnode]
  · rfl

theorem undisturbed_write (hne : (node, other) ≠ (owner, name)) (property : Property) :
    Keeps (Undisturbed owner name start) (write node other property) := by
  intro i hi
  rw [outcome_write]
  cases hn : i.repository.node? node with
  | none => exact ⟨hi, fun _ _ => trivial⟩
  | some n =>
    have hidentifier := map_identifier_insert hn (n.properties.insert other property)
    refine ⟨hi.trans ⟨.of_identifier rfl rfl hidentifier fun _ h => h, ?_, rfl, fun _ => rfl⟩,
      fun _ _ => trivial⟩
    · refine property?_replace hn fun hnode => ?_
      rw [Table.get?_insert, if_neg fun heq => hne (by rw [hnode, heq])]

/-- What is looked up for another property does not make this one wait. -/
theorem undisturbed_lookUp (hother : standsFor owner name (Path.join node other) = false)
    (reference : String) :
    Keeps (Undisturbed owner name start) (lookUp node other reference) := by
  refine keeps_lookUp (fun _ _ _ _ => trivial) trivial fun i h _ => ?_
  refine ⟨h.of_eq rfl rfl rfl fun _ hm => hm, h.property, h.pending, fun q => ?_⟩
  exact (waits_await hother _ q).trans (h.waits q)

theorem undisturbed_assign {type : ValueType} (hne : (node, other) ≠ (owner, name))
    (hreference : type = .reference → standsFor owner name (Path.join node other) = false)
    (text : String) : Keeps (Undisturbed owner name start) (assign node other type text) :=
  keeps_assign (fun htype => undisturbed_lookUp (hreference htype) text)
    (fun _ _ => undisturbed_write hne _) (isStable_undisturbed.recordVersionable node)
    fun _ _ _ _ => undisturbed_write hne _

theorem undisturbed_postpone (hother : Path.join node other ≠ Path.join owner name)
    (standIns : List String) :
    Keeps (Undisturbed owner name start) (postpone (Path.join node other) standIns) := by
  refine .modify fun i h => ⟨h.of_eq rfl rfl rfl fun _ hm => hm, h.property, ?_, h.waits⟩
  exact (Table.get?_insert ..).trans ((if_neg hother).trans h.pending)

theorem undisturbed_assignAll (hself : standsFor owner name (Path.join owner name) = true)
    {type : ValueType} (hne : (node, other) ≠ (owner, name))
    (hreference : type = .reference → standsFor owner name (Path.join node other) = false)
    (texts : List String) :
    Keeps (Undisturbed owner name start) (assignAll node other type texts) := by
  refine keeps_assignAll (fun htype => undisturbed_lookUp (hreference htype))
    (fun htype _ _ => undisturbed_postpone (fun heq => ?_) _) (fun _ _ => undisturbed_write hne _)
    fun _ _ _ => undisturbed_write hne _
  rw [← heq, hreference htype] at hself
  cases hself

end Properties

end ContentImport.Import
