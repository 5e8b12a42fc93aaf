import ContentImport.Proofs.Import.Nodes
import ContentImport.Proofs.Import.Settled

/-!
# What an import adds

An import whose options leave alone what is there takes nothing away: nodes keep their types and
their properties, if not the values of these (`Repository.Grows`, `grows_perform`).

What a call is to add is there once it has been carried out: a node that is opened, with the mixin
types (`exists_node_of_openChild`); a property that is set, or else it waits for a node or is only
taken down (`assign_ok`, `isSome_of_assignAll`); and the properties that waited for a node that is
closed (`closeNode_waiting`).
-/

namespace ContentImport

/-! ## Growth -/

/-- A node has the types of another one, and properties of the same names. -/
structure Node.Grows (n n' : Node) : Prop where
  hasType : ∀ type, n.hasType type = true → n'.hasType type = true
  property : ∀ name, (n.properties.get? name).isSome = true →
    (n'.properties.get? name).isSome = true

namespace Node.Grows

variable {n n' n'' : Node}

theorem refl (n : Node) : n.Grows n := ⟨fun _ h => h, fun _ h => h⟩

theorem trans (h : n.Grows n') (h' : n'.Grows n'') : n.Grows n'' :=
  ⟨fun type ht => h'.hasType type (h.hasType type ht),
    fun name hn => h'.property name (h.property name hn)⟩

theorem addMixin (n : Node) (mixin : String) :
    n.Grows { n with mixins := n.mixins ++ [mixin] } := by
  refine ⟨fun type htype => ?_, fun _ h => h⟩
  simp only [Node.hasType, List.contains_append, ← Bool.or_assoc] at htype ⊢
  rw [htype, Bool.true_or]

theorem setProperty (n : Node) (name : String) (property : Property) :
    n.Grows { n with properties := n.properties.insert name property } := by
  refine ⟨fun _ h => h, fun other hset => ?_⟩
  rw [Table.get?_insert]
  split
  · rfl
  · exact hset

end Node.Grows

namespace Repository

variable {r r' r'' : Repository} {path name : String}

/-- A repository has the nodes of another one, and these have grown. -/
def Grows (r r' : Repository) : Prop :=
  ∀ path n, r.node? path = some n → ∃ n', r'.node? path = some n' ∧ n.Grows n'

namespace Grows

theorem refl (r : Repository) : r.Grows r := fun _ n hn => ⟨n, hn, .refl n⟩

theorem trans (h : r.Grows r') (h' : r'.Grows r'') : r.Grows r'' := by
  intro path n hn
  obtain ⟨n', hn', hgrows⟩ := h path n hn
  obtain ⟨n'', hn'', hgrows'⟩ := h' path n' hn'
  exact ⟨n'', hn'', hgrows.trans hgrows'⟩

theorem hasNode (h : r.Grows r') (hpath : r.hasNode path = true) : r'.hasNode path = true := by
  obtain ⟨n, hn⟩ := exists_node?_of_hasNode hpath
  obtain ⟨n', hn', -⟩ := h path n hn
  exact hasNode_of_node? hn'

theorem isSome_property? (h : r.Grows r') (hset : (r.property? path name).isSome = true) :
    (r'.property? path name).isSome = true := by
  obtain ⟨p, hp⟩ := Option.isSome_iff_exists.1 hset
  obtain ⟨n, hn, hget⟩ := Option.bind_eq_some_iff.1 hp
  obtain ⟨n', hn', hgrows⟩ := h path n hn
  rw [property?, hn', Option.bind_some]
  exact hgrows.property name (hget ▸ rfl)

theorem property?_eq_none (h : r.Grows r') (hnone : r'.property? path name = none) :
    r.property? path name = none := by
  by_contra hset
  have hlater := h.isSome_property? (Option.isSome_iff_ne_none.2 hset)
  rw [hnone] at hlater
  cases hlater

/-- A node takes the place of one that it has grown from. -/
theorem insert {n n' : Node} (hn : r.node? path = some n) (h : n.Grows n') :
    r.Grows { r with nodes := r.nodes.insert path n' } := by
  intro q m hm
  rw [node?, Table.get?_insert]
  split
  · next hq =>
    rw [← hq, hn] at hm
    exact ⟨n', rfl, Option.some.inj hm ▸ h⟩
  · exact ⟨m, hm, .refl m⟩

end Grows

/-- An operation removes no node and no property. -/
def Operation.TakesNothing : Operation → Prop
  | .removeNode _ | .removeProperty _ _ => False
  | _ => True

theorem Operation.TakesNothing.grows {op : Operation} (hop : op.TakesNothing) (r : Repository) :
    r.Grows (op.after r) := by
  have hstep := op.step r
  generalize op.after r = r' at hstep
  cases hstep with
  | removeNode | removeOrphan | removeProperty => cases hop
  | @addNode parent name type n _ hnew hparent =>
    have hlisted : r.Grows
        { r with nodes := r.nodes.insert parent { n with children := n.children ++ [name] } } :=
      .insert hparent ⟨fun _ h => h, fun _ h => h⟩
    intro q m hm
    rw [node?, Table.get?_insert, if_neg]
    · exact hlisted q m hm
    · rintro rfl
      rw [hasNode_of_node? hm] at hnew
      cases hnew
  | addMixin hn => exact .insert hn (.addMixin _ _)
  | setProperty hn => exact .insert hn (.setProperty _ _ _)
  | _ => exact .refl r

end Repository

namespace Import

variable {i j k : Import} {node parent name : String} {rest : List String}

/-! ## Calls -/

/-- The repository of an import has grown, its options being the same and its default name. -/
structure Grows (i j : Import) : Prop where
  options : j.options = i.options
  defaultName : j.defaultName = i.defaultName
  repository : i.repository.Grows j.repository

namespace Grows

theorem refl (i : Import) : i.Grows i := ⟨rfl, rfl, .refl i.repository⟩

theorem trans (h : i.Grows j) (h' : j.Grows k) : i.Grows k :=
  ⟨h'.options.trans h.options, h'.defaultName.trans h.defaultName,
    h.repository.trans h'.repository⟩

end Grows

theorem isStable_grows : IsStable Repository.Operation.TakesNothing i.Grows where
  principals := by
    intro op hop
    cases op <;> trivial
  operation := fun _ hop j h => h.trans ⟨rfl, rfl, hop.grows j.repository⟩
  notes := fun _ _ _ _ h => ⟨h.options, h.defaultName, h.repository⟩
  records := fun _ _ _ h => ⟨h.options, h.defaultName, h.repository⟩

/-- **No call takes anything away.** -/
theorem grows_perform (hi : i.options.IsAdditive) (c : Call) : Keeps i.Grows (perform c) := by
  refine isStable_grows.perform (fun _ _ _ _ h => ⟨h.options, h.defaultName, h.repository⟩)
    (fun _ _ _ h => ⟨h.options, h.defaultName, h.repository⟩)
    (fun _ _ _ => isStable_grows.create trivial) (fun _ _ _ => isStable_grows.write trivial)
    (fun _ _ _ => trivial) (fun _ _ => trivial) (fun _ _ _ _ => trivial) (fun j h hover => ?_)
    (fun j h hmerge => ?_) (fun id password extra _ => isStable_grows.createUser id password extra)
    fun id members extra _ => isStable_grows.createGroup id members extra
  · rw [h.options, hi.overwrite] at hover
    cases hover
  · rw [h.options, hi.propertyMerge] at hmerge
    cases hmerge

theorem grows_of_perform {c : Call} (hi : i.options.IsAdditive)
    (h : outcome (perform c) i = (.ok (), j)) : i.Grows j := by
  have hgrows := (grows_perform hi c i (.refl i)).1
  rwa [h] at hgrows

/-! ## Opening nodes -/

theorem grows_foldl_withMixin (mixins : List String) (n : Node) :
    n.Grows (mixins.foldl withMixin n) := by
  induction mixins generalizing n with
  | nil => exact .refl n
  | cons mixin mixins ih =>
    have hmixin : n.Grows (withMixin n mixin) := by
      unfold withMixin
      split
      · exact .refl n
      · exact .addMixin n mixin
    exact hmixin.trans (ih _)

theorem hasType_foldl_withMixin (mixins : List String) (n : Node) :
    ∀ mixin ∈ mixins, (mixins.foldl withMixin n).hasType mixin = true := by
  induction mixins generalizing n with
  | nil => exact List.forall_mem_nil _
  | cons mixin mixins ih =>
    refine List.forall_mem_cons.2 ⟨?_, ih _⟩
    refine (grows_foldl_withMixin mixins _).hasType mixin ?_
    unfold withMixin
    split
    · next htype => exact htype
    · simp [Node.hasType]

/-- A child that is opened is there with the mixin types. -/
theorem exists_node_of_openChild (hover : i.options.overwrite = false) {type : Option String}
    {mixins : List String} (h : outcome (openChild parent name type mixins) i = (.ok (), j)) :
    ∃ n, j.repository.node? (Path.join parent name) = some n ∧
      ∀ mixin ∈ mixins, n.hasType mixin = true := by
  cases hnode : i.repository.node? (Path.join parent name) with
  | some n =>
    obtain ⟨r, hopen, hr⟩ := exists_outcome_openChild_of_node hover type mixins hnode
    obtain ⟨-, rfl⟩ := Prod.mk.inj (hopen.symm.trans h)
    exact ⟨_, (hr _).trans (if_pos rfl), hasType_foldl_withMixin mixins n⟩
  | none =>
    have hnew : i.repository.hasNode (Path.join parent name) = false :=
      Option.isSome_eq_false_iff.2 (Option.isNone_iff_eq_none.2 hnode)
    rcases openChild_cases_of_new hover type mixins hnew with
      ⟨e, hfail⟩ | ⟨r, n, -, -, hopen, hr⟩
    · rw [hfail] at h
      cases h
    · obtain ⟨-, rfl⟩ := Prod.mk.inj (hopen.symm.trans h)
      exact ⟨_, (hr _).trans (if_pos rfl), hasType_foldl_withMixin mixins _⟩

/-! ## Setting properties -/

theorem isSome_of_write {property : Property}
    (h : outcome (write node name property) i = (.ok (), j)) :
    (j.repository.property? node name).isSome = true := by
  rw [outcome_write] at h
  split at h
  · cases h
  · obtain ⟨-, rfl⟩ := Prod.mk.inj h
    rw [Repository.property?, Repository.node?, Table.get?_insert, if_pos rfl, Option.bind_some,
      Table.get?_insert, if_pos rfl]
    rfl

/-- A property that is assigned is there, unless it asks to check in the node, or waits for another
one. -/
theorem assign_ok {type : ValueType} {text : String}
    (h : outcome (assign node name type text) i = (.ok (), j)) :
    (j.repository.property? node name).isSome = true ∨ (type ≠ .reference ∧ name = checkedOutName) ∨
      (type = .reference ∧ i.repository.node? (Path.resolve node text) = none ∧
        j = i.await (Path.resolve node text) (Path.join node name)) := by
  unfold assign at h
  split at h
  · next htype =>
    rw [lookUp, outcome_bind, outcome_bind, outcome_get] at h
    dsimp only at h
    cases hnode : i.repository.node? (Path.resolve node text) with
    | some n =>
      rw [hnode] at h
      exact .inl (isSome_of_write h)
    | none =>
      rw [hnode] at h
      obtain ⟨-, rfl⟩ := Prod.mk.inj h
      exact .inr (.inr ⟨htype, rfl, rfl⟩)
  next htype =>
  split at h
  · next hname => exact .inr (.inl ⟨htype, hname⟩)
  split at h
  · exact .inl (isSome_of_write h)
  · cases h

/-- A property that is assigned several values is there, even if it waits for nodes. -/
theorem isSome_of_assignAll {type : ValueType} {texts : List String}
    (h : outcome (assignAll node name type texts) i = (.ok (), j)) :
    (j.repository.property? node name).isSome = true := by
  unfold assignAll at h
  split at h
  · obtain ⟨found, k, -, h⟩ := outcome_bind_eq_ok h
    dsimp only at h
    split at h
    · obtain ⟨_, _, -, h⟩ := outcome_bind_eq_ok h
      exact isSome_of_write h
    · exact isSome_of_write h
  · obtain ⟨vs, k, -, h⟩ := outcome_bind_eq_ok h
    exact isSome_of_write h

/-! ## Closing nodes -/

/-- **Once a node is closed, the properties that waited for it are there,** and no other node is
waited for any less. -/
theorem closeNode_waiting (hopened : i.opened = node :: rest)
    (hnode : i.repository.hasNode node = true) (h : outcome closeNode i = (.ok (), j)) :
    (∀ q, q ≠ node → j.waiting.get? q = i.waiting.get? q) ∧
      ∀ path ∈ (i.waiting.get? node).getD [], ∀ owner, Path.parent? path = some owner →
        i.repository.hasNode owner = true →
        (j.repository.property? owner (Path.name path)).isSome = true := by
  obtain ⟨k, hk, hclosed⟩ := isClosed_closeNode hopened
  obtain ⟨-, rfl⟩ := Prod.mk.inj (hk.symm.trans h)
  refine ⟨fun q hq => ?_, fun path hpath owner hparent howner => ?_⟩
  · rw [hclosed.waiting, Table.get?_erase, if_neg hq]
  · have hwaits : path ∈ i.waits owner (Path.name path) node :=
      List.mem_filter.2 ⟨hpath, by simp [standsFor, hparent]⟩
    exact hclosed.isSome_property? hnode howner (List.ne_nil_of_mem hwaits)

end Import

end ContentImport
