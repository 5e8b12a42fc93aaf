import ContentImport.Proofs.Import.Closing

/-!
# What is left once a node is closed

When a node is closed, properties of it are removed that the content does not mention, if that is
asked for, and then those are written that wait for the node.

* `Settles` says which properties writing them may change, and that they are references afterwards.
* `IsClosed` says what is left of an import of which a node was closed: what has become of any
  property, and what goes on to wait (`isClosed_closeNode`).
-/

namespace ContentImport.Import

variable {node id : String} {i j k : Import} {paths paths' rest : List String}

/-! ## Properties that waited -/

/-- From one import to another no other properties were written than those for which the paths
stand, and of these all whose nodes are there, as references. -/
structure Settles (paths : List String) (i j : Import) : Prop where
  same : SameNodes i j
  property : ∀ owner name, (∀ path ∈ paths, standsFor owner name path = false) →
    j.repository.property? owner name = i.repository.property? owner name
  written : ∀ owner name, i.repository.hasNode owner = true → ∀ path ∈ paths,
    standsFor owner name path = true →
      (j.repository.property? owner name).map Property.type = some .reference

theorem Settles.refl (i : Import) : Settles [] i i :=
  ⟨.refl i, fun _ _ _ => rfl, fun _ _ _ => List.forall_mem_nil _⟩

theorem Settles.trans (h : Settles paths i j) (h' : Settles paths' j k) :
    Settles (paths ++ paths') i k where
  same := h.same.trans h'.same
  property := by
    intro owner name hpaths
    obtain ⟨hfirst, hrest⟩ := List.forall_mem_append.1 hpaths
    rw [h'.property owner name hrest, h.property owner name hfirst]
  written := by
    intro owner name howner path hpath hstands
    have howner' : j.repository.hasNode owner = true := (h.same.hasNode owner).trans howner
    by_cases hagain : ∃ q ∈ paths', standsFor owner name q = true
    · obtain ⟨q, hq, hstands'⟩ := hagain
      exact h'.written owner name howner' q hq hstands'
    · have hrest : ∀ q ∈ paths', standsFor owner name q = false := fun q hq =>
        Bool.eq_false_iff.2 fun hstands' => hagain ⟨q, hq, hstands'⟩
      have hmem : path ∈ paths := (List.mem_append.1 hpath).resolve_right fun hmem =>
        hagain ⟨path, hmem, hstands⟩
      rw [h'.property owner name hrest]
      exact h.written owner name howner path hmem hstands

theorem settles_settleProperty (node id path : String) (i : Import) :
    ∃ j, outcome (settleProperty node id path) i = (.ok (), j) ∧ Settles [path] i j := by
  rcases settleProperty_cases node id path i with ⟨houtcome, hnone⟩ |
    ⟨owner, n, property, pending, hparent, hn, houtcome, hsettle, -⟩
  · refine ⟨i, houtcome, .refl i, fun _ _ _ => rfl, fun owner name howner => ?_⟩
    refine List.forall_mem_singleton.2 fun hstands => ?_
    rw [hnone owner (eq_of_beq (Bool.and_eq_true_iff.1 hstands).1)] at howner
    cases howner
  · refine ⟨_, houtcome, ⟨rfl, rfl, rfl, rfl, ?_⟩, fun owner' name hpaths => ?_,
      fun owner' name _ => List.forall_mem_singleton.2 fun hstands => ?_⟩
    · exact map_identifier_insert hn (n.properties.insert (Path.name path) property)
    · refine property?_replace hn ?_
      rintro rfl
      refine (Table.get?_insert ..).trans (if_neg ?_)
      rintro rfl
      simp [standsFor, hparent] at hpaths
    · obtain ⟨howner, rfl⟩ : owner = owner' ∧ Path.name path = name := by
        simpa [standsFor, hparent] using hstands
      rw [Repository.property?, Repository.node?, Table.get?_insert, if_pos howner,
        Option.bind_some, Table.get?_insert, if_pos rfl]
      exact (congrArg (Option.map Property.type ∘ View.property) (hsettle none)).symm.trans
        (View.type_settle node id _)

theorem settles_forM (node id : String) (paths : List String) (i : Import) :
    ∃ j, outcome (paths.forM (settleProperty node id)) i = (.ok (), j) ∧ Settles paths i j := by
  induction paths generalizing i with
  | nil => exact ⟨i, rfl, .refl i⟩
  | cons path paths ih =>
    have hcons : (path :: paths).forM (settleProperty node id) =
        settleProperty node id path >>= fun _ => paths.forM (settleProperty node id) := rfl
    obtain ⟨j, hj, hfirst⟩ := settles_settleProperty node id path i
    obtain ⟨k, hk, hrest⟩ := ih j
    exact ⟨k, by rw [hcons, outcome_bind_of_ok hj, hk], hfirst.trans hrest⟩

/-- The properties that wait for a node are written if the node is there, and wait no more. -/
theorem settles_settleReferences (node : String) (i : Import) :
    ∃ j, outcome (settleReferences node) i = (.ok (), j) ∧
      Settles (if i.repository.hasNode node then (i.waiting.get? node).getD [] else [])
        { i with waiting := i.waiting.erase node } j := by
  rw [outcome_settleReferences]
  cases hn : i.repository.node? node with
  | none =>
    have hnode : i.repository.hasNode node = false := congrArg Option.isSome hn
    rw [hnode]
    exact ⟨_, rfl, .refl _⟩
  | some n =>
    rw [Repository.hasNode_of_node? hn]
    exact settles_forM node n.identifier _ _

/-! ## Closed nodes -/

/-- What is left of an import of which a node was closed. A property that waits for nothing is as it
was, unless it is one of the node that the content does not mention. One that waits for the node is
one of references. -/
structure IsClosed (node : String) (rest : List String) (i j : Import) : Prop where
  options : j.options = i.options
  opened : j.opened = rest
  mentioned : j.mentioned = i.mentioned
  waiting : j.waiting = i.waiting.erase node
  identifier : ∀ path, j.identifier? path = i.identifier? path
  property : ∀ owner name, i.waits owner name node = [] → j.repository.property? owner name =
    if i.options.propertyMerge = true ∧ owner = node ∧ name ∉ i.mentioned ∧ name ∉ protectedNames
    then none else i.repository.property? owner name
  settled : i.repository.hasNode node = true → ∀ owner name, i.repository.hasNode owner = true →
    i.waits owner name node ≠ [] →
      (j.repository.property? owner name).map Property.type = some .reference

theorem IsClosed.isSome_property? (h : IsClosed node rest i j) {owner name : String}
    (hnode : i.repository.hasNode node = true) (howner : i.repository.hasNode owner = true)
    (hwaits : i.waits owner name node ≠ []) :
    (j.repository.property? owner name).isSome = true := by
  rw [← Option.isSome_map, h.settled hnode owner name howner hwaits]
  rfl

theorem IsClosed.hasNode (h : IsClosed node rest i j) (path : String) :
    j.repository.hasNode path = i.repository.hasNode path := by
  rw [← isSome_identifier?, h.identifier, isSome_identifier?]

theorem IsClosed.waits (h : IsClosed node rest i j) (owner name q : String) :
    j.waits owner name q = if q = node then [] else i.waits owner name q := by
  rw [Import.waits, h.waiting]
  exact waits_erase i node q

theorem Drops.property_eq {names : List String} {merges : Prop} [Decidable merges]
    (h : Drops node names i j)
    (hnames : ∀ name, name ∈ names ↔ merges ∧
      (i.repository.property? node name).isSome = true ∧ i.isUnmentioned name = true)
    (owner name : String) : j.repository.property? owner name =
      if merges ∧ owner = node ∧ name ∉ i.mentioned ∧ name ∉ protectedNames then none
      else i.repository.property? owner name := by
  rw [h.property]
  by_cases howner : owner = node
  · subst howner
    cases hp : i.repository.property? owner name with
    | none => simp
    | some p => simp [hnames, hp, isUnmentioned_iff]
  · simp [howner]

/-- **Closing a node leaves what `IsClosed` says.** -/
theorem isClosed_closeNode (hopened : i.opened = node :: rest) :
    ∃ j, outcome closeNode i = (.ok (), j) ∧ IsClosed node rest i j := by
  obtain ⟨names, k, hclose, hdrops, hnames⟩ := drops_closeNode hopened
  obtain ⟨j, hj, hsettles⟩ := settles_settleReferences node k
  have hwaiting : k.waiting = i.waiting := hdrops.same.waiting
  have hnode : ∀ path, k.repository.hasNode path = i.repository.hasNode path := hdrops.same.hasNode
  rw [hwaiting, hnode] at hsettles
  refine ⟨j, hclose.trans hj, ?_⟩
  exact {
    options := hsettles.same.options.trans hdrops.same.options
    opened := hsettles.same.opened.trans hdrops.same.opened
    mentioned := hsettles.same.mentioned.trans hdrops.same.mentioned
    waiting := hsettles.same.waiting
    identifier := fun path =>
      (hsettles.same.identifier path).trans (hdrops.same.identifier path)
    property := by
      intro owner name hwaits
      have hspared := List.filter_eq_nil_iff.1 hwaits
      rw [hsettles.property owner name]
      · exact hdrops.property_eq hnames owner name
      · intro path hpath
        split at hpath
        · exact Bool.eq_false_iff.2 (hspared path hpath)
        · cases hpath
    settled := by
      intro hclosed owner name howner hwaits
      obtain ⟨path, hpath⟩ := List.exists_mem_of_ne_nil _ hwaits
      obtain ⟨hmem, hstands⟩ := List.mem_filter.1 hpath
      refine hsettles.written owner name ((hnode owner).trans howner) path ?_ hstands
      rwa [if_pos hclosed] }

end ContentImport.Import
