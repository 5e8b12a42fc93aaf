import ContentImport.Proofs.Import.Merge
import ContentImport.Proofs.Import.Nodes
import ContentImport.Proofs.Import.Reference

/-!
# Where references come from

The references that an import writes are identifiers that nodes have by then. `IsSourced` says that
the references that nodes hold are allowed, and that the stand-ins of lists that wait are known
identifiers unless they are paths. Every action keeps that, if known identifiers are allowed
everywhere and the nodes have known identifiers (`IsSourced.after`).
-/

namespace ContentImport

/-- A property has a reference to an identifier among its values. -/
def Property.Refers : Property → String → Prop
  | .single v, id => v = .reference id
  | .multiple _ vs, id => .reference id ∈ vs

theorem Value.eq_reference_of_parse {type : ValueType} {text id : String}
    (hv : Value.parse type text = .ok (.reference id)) : type = .reference := by
  have htype := type_of_parse? (parse_eq_ok_iff.1 hv)
  split at htype
  · cases htype
  · exact htype.symm

namespace Import

variable {allowed : String → String → String → Prop} {known : String → Prop} {i j : Import}
  {node name owner parent : String} {p : Property}

/-! ## What operations do to properties -/

theorem property?_of_after {r : Repository} (op : Repository.Operation)
    (h : (op.after r).property? owner name = some p) :
    r.property? owner name = some p ∨ op = .setProperty owner name p := by
  have hinsert : ∀ {q : String} {n n' : Node}, r.node? q = some n →
      ((r.nodes.insert q n').get? owner).bind (fun n => n.properties.get? name) = some p →
      (n'.properties.get? name = some p → n.properties.get? name = some p) →
      r.property? owner name = some p := by
    intro q n n' hn h hsame
    rw [Table.get?_insert] at h
    split at h
    · next hq =>
      rw [Repository.property?, ← hq, hn]
      exact hsame h
    · exact h
  have hremoved : ∀ path : String,
      ((r.nodes.filter fun k _ => !Path.isWithin k path).get? owner).bind
        (fun n => n.properties.get? name) = some p → r.property? owner name = some p := by
    intro path h
    rw [Path.get?_outside] at h
    split at h
    · cases h
    · exact h
  have hstep := op.step r
  generalize op.after r = r' at hstep h
  cases hstep with
  | addNode _ _ hparent =>
    rw [Repository.property?, Repository.node?, Table.get?_insert] at h
    split at h
    · cases h
    · exact .inl (hinsert hparent h id)
  | @removeNode path _ _ _ _ hn =>
    rw [Repository.property?, Repository.node?, Table.get?_insert] at h
    split at h
    · next hq =>
      refine .inl (hremoved path ?_)
      rw [← hq, hn]
      exact h
    · exact .inl (hremoved path h)
  | @removeOrphan path => exact .inl (hremoved path h)
  | addMixin hn => exact .inl (hinsert hn h id)
  | @setProperty path other n hn property =>
    by_cases heq : path = owner ∧ other = name
    · obtain ⟨rfl, rfl⟩ := heq
      rw [Repository.property?, Repository.node?, Table.get?_insert, if_pos rfl, Option.bind_some,
        Table.get?_insert, if_pos rfl] at h
      exact .inr (by rw [Option.some.inj h])
    · rw [Repository.property?, Repository.node?, Table.get?_insert] at h
      split at h
      · next hq =>
        rw [Option.bind_some, Table.get?_insert, if_neg fun hname => heq ⟨hq, hname⟩] at h
        refine .inl ?_
        rw [Repository.property?, ← hq, hn]
        exact h
      · exact .inl h
  | removeProperty hn =>
    refine .inl (hinsert hn h fun hp => ?_)
    rw [Table.get?_erase] at hp
    split at hp
    · cases hp
    · exact hp
  | _ => exact .inl h

/-! ## Sourced references -/

/-- The references that nodes hold are allowed, and the stand-ins that wait are known. -/
structure IsSourced (allowed : String → String → String → Prop) (known : String → Prop)
    (i : Import) : Prop where
  held : ∀ owner name p, i.repository.property? owner name = some p →
    ∀ id, p.Refers id → allowed owner name id
  pending : ∀ path standIns, i.pending.get? path = some standIns →
    ∀ s ∈ standIns, Text.startsWith "/" s = true ∨ known s

/-- The identifiers of nodes are known. -/
def KnowsNodes (known : String → Prop) (i : Import) : Prop :=
  ∀ q id, i.identifier? q = some id → known id

/-- References are sourced, and nodes have known identifiers. -/
def IsSound (allowed : String → String → String → Prop) (known : String → Prop) (i : Import) :
    Prop :=
  IsSourced allowed known i ∧ KnowsNodes known i

/-- An operation writes references only where they are allowed. -/
def WritesOnly (allowed : String → String → String → Prop) : Repository.Operation → Prop
  | .setProperty owner name p => ∀ id, p.Refers id → allowed owner name id
  | _ => True

theorem isStable_sourced : IsStable (WritesOnly allowed) (IsSourced allowed known) where
  principals := by
    intro op hop
    cases op <;> trivial
  operation := by
    intro op hop i hi
    refine ⟨fun owner name p hp => (property?_of_after op hp).elim (hi.held owner name p) ?_,
      hi.pending⟩
    rintro rfl
    exact hop
  notes := fun _ _ _ _ hi => ⟨hi.held, hi.pending⟩
  records := fun _ _ _ hi => ⟨hi.held, hi.pending⟩

theorem isStable_knowsNodes : IsStable KeepsTree (KnowsNodes known) where
  principals := by
    intro op hop
    cases op <;> trivial
  operation := fun _ hop i hi q id hid =>
    hi q id ((identifier_after hop i.repository q).symm.trans hid)
  notes := fun _ _ _ _ hi => hi
  records := fun _ _ _ hi => hi

theorem isStable_sound :
    IsStable (fun op => WritesOnly allowed op ∧ KeepsTree op) (IsSound allowed known) :=
  isStable_sourced.and isStable_knowsNodes

/-! ## Nodes and files -/

theorem sourced_openNode (name : Option String) (type : Option String) (mixins : List String) :
    Keeps (IsSourced allowed known) (openNode name type mixins) :=
  keeps_openNode (keeps_current fun _ => trivial) (fun _ _ _ =>
    isStable_sourced.openChild (isStable_sourced.clear trivial) (fun _ => trivial)
      (fun _ => trivial) (.modify fun _ hi => ⟨hi.held, hi.pending⟩) type mixins) name

theorem sourced_openFile (name : String) (data : Except FileError Bytes)
    (mediaType : Option String) (modified : Int) :
    Keeps (IsSourced allowed known) (openFile name data mediaType modified) :=
  keeps_openFile (keeps_current fun _ => trivial)
    (fun _ _ => isStable_sourced.openStoredFile (fun _ _ _ => trivial)
      (fun _ _ hi => ⟨hi.held, hi.pending⟩) _ modified)
    (fun name type => sourced_openNode name type []) fun file name =>
      isStable_sourced.writeContent (fun _ _ hv => keeps_current fun _ _ hid =>
        absurd (congrArg Value.type hid) hv) file name data mediaType modified

/-! ## References -/

/-- What looking up a reference returns is a known identifier, or a path. -/
def IsFound (known : String → Prop) (found : Except String String) : Prop :=
  (∀ id, found = .ok id → known id) ∧ ∀ path, found = .error path → Text.startsWith "/" path = true

theorem isFound_lookUp (hnode : Path.isWithin node Path.root = true) (reference : String) :
    Keeps (IsSound allowed known) (lookUp node name reference) (IsFound known) := by
  refine keeps_lookUp (fun i hi n hn => ⟨fun id hid => ?_, nofun⟩) ⟨nofun, fun path hpath => ?_⟩
    fun _ hi _ => ⟨⟨hi.1.held, hi.1.pending⟩, hi.2⟩
  · refine hi.2 (Path.resolve node reference) id ?_
    rw [identifier?, hn, Option.map_some, Except.ok.inj hid]
  · rw [← Except.error.inj hpath]
    exact Path.isWithin_resolve hnode reference

theorem known_of_found {found : List (Except String String)} (h : ∀ f ∈ found, IsFound known f) :
    ∀ id ∈ found.filterMap Except.toOption, known id := by
  intro id hid
  obtain ⟨f, hf, hok⟩ := List.mem_filterMap.1 hid
  cases f with
  | ok id' =>
    obtain rfl := Option.some.inj hok
    exact (h _ hf).1 id' rfl
  | error path => cases hok

/-- Properties of the current node are set. -/
theorem sound_setWith (hi : IsSound allowed known i)
    (hopened : ∀ path ∈ i.opened, Path.isWithin path Path.root = true) (name : String)
    {set : String → Step Unit}
    (hset : ∀ node, Path.isWithin node Path.root = true →
      Keeps (IsSound allowed known) (set node)) :
    IsSound allowed known (outcome (setWith name set) i).2 := by
  have hmentioned : IsSound allowed known { i with mentioned := including i.mentioned name } :=
    (isStable_sound.mention name i hi).1
  cases hcurrent : i.opened with
  | nil =>
    rw [outcome_setWith_of_nil hcurrent]
    exact hmentioned
  | cons node rest =>
    rw [outcome_setWith hcurrent]
    split
    · exact hmentioned
    · exact (hset node (hopened node (hcurrent ▸ List.mem_cons_self)) _ hmentioned).1

theorem known_settledProperty {id : String} (hid : known id) (path node : String) :
    Keeps (IsSourced allowed known) (settledProperty path node id)
      fun p => ∀ id, p.Refers id → known id := by
  refine .bind .get fun i hi => ?_
  split
  · exact .pure fun id' hid' => Value.reference.inj hid' ▸ hid
  next standIns hstandIns =>
  have hsettled : ∀ s ∈ settle node id standIns, Text.startsWith "/" s = true ∨ known s := by
    intro s hs
    obtain ⟨s', hs', rfl⟩ := List.mem_map.1 hs
    split
    · exact .inr hid
    · exact hi.pending path standIns hstandIns s' hs'
  refine .bind (.modify fun j hj => ⟨hj.held, ?_⟩) fun _ _ => .pure ?_
  · split
    · intro path' standIns' hget
      rw [Table.get?_erase] at hget
      split at hget
      · cases hget
      · exact hj.pending path' standIns' hget
    · exact Table.forall_get?_insert hj.pending hsettled
  · intro id' hid'
    obtain ⟨s, hs, heq⟩ := List.mem_map.1 hid'
    obtain ⟨hs, hpath⟩ := List.mem_filter.1 hs
    obtain rfl := Value.reference.inj heq
    exact (hsettled s hs).resolve_left (by simpa using hpath)

section Known

variable (hallowed : ∀ owner name id, known id → allowed owner name id)

include hallowed

theorem sound_assign (hnode : Path.isWithin node Path.root = true) (name : String)
    (type : ValueType) (text : String) :
    Keeps (IsSound allowed known) (assign node name type text) := by
  refine keeps_assign (fun _ => isFound_lookUp hnode text)
    (fun id hfound => isStable_sound.write ⟨fun id' hid => ?_, trivial⟩)
    (isStable_sound.recordVersionable node)
    fun v htype _ hv => isStable_sound.write ⟨fun id hid => ?_, trivial⟩
  · obtain rfl := Value.reference.inj hid
    exact hallowed node name id (hfound.1 id rfl)
  · obtain rfl : v = .reference id := hid
    exact absurd (Value.eq_reference_of_parse hv) htype

theorem sound_assignAll (hnode : Path.isWithin node Path.root = true) (name : String)
    (type : ValueType) (texts : List String) :
    Keeps (IsSound allowed known) (assignAll node name type texts) := by
  refine keeps_assignAll (fun _ => isFound_lookUp hnode)
    (fun _ found hfound => .modify fun i hi => ⟨⟨hi.1.held, ?_⟩, hi.2⟩)
    (fun found hfound => isStable_sound.write ⟨fun id hid => ?_, trivial⟩)
    fun vs htype hvs => isStable_sound.write ⟨fun id hid => ?_, trivial⟩
  · refine Table.forall_get?_insert hi.1.pending fun s hs => ?_
    obtain ⟨f, hf, rfl⟩ := List.mem_map.1 hs
    cases f with
    | ok id => exact .inr ((hfound _ hf).1 id rfl)
    | error path => exact .inl ((hfound _ hf).2 path rfl)
  · obtain ⟨id', hid', heq⟩ := List.mem_map.1 hid
    obtain rfl := Value.reference.inj heq
    exact hallowed node name id' (known_of_found hfound id' hid')
  · obtain ⟨text, -, htext⟩ := exists_of_mem_mapM hvs hid
    have hreference := Value.eq_reference_of_parse htext
    split at hreference
    · cases hreference
    · exact absurd hreference htype

theorem sourced_settleProperty {id : String} (hid : known id) (node path : String) :
    Keeps (IsSourced allowed known) (settleProperty node id path) :=
  keeps_settleProperty (known_settledProperty hid path node) fun owner _ p hp =>
    isStable_sourced.onRepository (.setProperty owner (Path.name path) p)
      (fun id' hid' => hallowed _ _ id' (hp id' hid')) fun _ => rfl

theorem sound_settleReferences (node : String) :
    Keeps (IsSound allowed known) (settleReferences node) := by
  refine keeps_settleReferences (fun _ hi => ⟨⟨hi.1.held, hi.1.pending⟩, hi.2⟩)
    fun _ _ _ _ path _ j hj n hn => ?_
  have hid : known n.identifier := hj.2 node n.identifier (by rw [identifier?, hn]; rfl)
  have hknows : Keeps (KnowsNodes known) (settleProperty node n.identifier path) := by
    intro i hi
    refine ⟨fun q id hid => hi q id ?_, fun _ _ => trivial⟩
    rwa [(sameTree_settleProperty node n.identifier path i (.refl i)).1.identifier] at hid
  exact (sourced_settleProperty hallowed hid node path).and hknows

theorem sound_closeNode : Keeps (IsSound allowed known) closeNode :=
  keeps_closeNode fun _ _ node _ _ =>
    ⟨fun _ hj => ⟨⟨hj.1.held, hj.1.pending⟩, hj.2⟩,
      keeps_settleNode (fun _ _ _ => isStable_sound.removeUnmentioned fun _ => ⟨trivial, trivial⟩)
        (sound_settleReferences hallowed node)⟩

/-! ## Actions -/

/-- **Every action keeps references sourced.** -/
theorem IsSourced.after (h : IsSourced allowed known i) (hknows : KnowsNodes known i)
    (hopened : ∀ path ∈ i.opened, Path.isWithin path Path.root = true) (a : Action) :
    IsSourced allowed known (i.after a) := by
  cases a with
  | finish => exact (isStable_sourced.finish (fun _ => trivial) i h).1
  | wait => exact ⟨h.held, h.pending⟩
  | call c =>
    cases c with
    | openNode name type mixins => exact (sourced_openNode name type mixins i h).1
    | closeNode => exact (sound_closeNode hallowed i ⟨h, hknows⟩).1.1
    | setProperty name type text =>
      exact (sound_setWith ⟨h, hknows⟩ hopened name fun node hnode =>
        sound_assign hallowed hnode name type text).1
    | setProperties name type texts =>
      exact (sound_setWith ⟨h, hknows⟩ hopened name fun node hnode =>
        sound_assignAll hallowed hnode name type texts).1
    | openFile name data mediaType modified =>
      exact (sourced_openFile name data mediaType modified i h).1
    | openPath path type =>
      have hopen : Keeps (IsSourced allowed known) (openPath path type) :=
        isStable_sourced.openPath (fun _ _ _ => trivial) (fun _ _ hi => ⟨hi.held, hi.pending⟩) path
          type
      exact (hopen.discard i h).1
    | createUser id password extra => exact (isStable_sourced.createUser id password extra i h).1
    | createGroup id members extra => exact (isStable_sourced.createGroup id members extra i h).1
    | setEntries =>
      exact (isStable_sourced.setEntries (keeps_current fun _ => trivial) i h).1

end Known

end Import

end ContentImport
