import ContentImport.Proofs.Import.Sourced

/-!
# Properties to which references are written

`assigned` are the properties to which an action writes references, at once or because they were
waiting. Once it has, they refer to identifiers of nodes only (`onlyKnown_of_assigned`), and that
remains so in what follows (`onlyKnown_of_trace`).
-/

namespace ContentImport.Import

variable {allowed : String → String → String → Prop} {known : String → Prop} {i j : Import}
  {node name owner : String} {p : Property} {a : Action} {actions : List Action}

/-! ## Properties to which references are written -/

/-- The properties that wait for a node and that are those of nodes. -/
def settled (i : Import) (node : String) : List (String × String) :=
  ((i.waiting.get? node).getD []).filterMap fun path =>
    (Path.parent? path).bind fun owner =>
      if i.repository.hasNode owner then some (owner, Path.name path) else none

/-- The properties to which an action writes references. A single reference to a missing node is not
written at first, but when the node is closed; a list is written at once and again then. -/
def assigned (i : Import) : Action → List (String × String)
  | .call (.setProperty name .reference text) =>
    (i.opened.head?.filter fun node =>
      !i.keeps node name && i.repository.hasNode (Path.resolve node text)).toList.map (·, name)
  | .call (.setProperties name .reference _) =>
    (i.opened.head?.filter fun node => !i.keeps node name).toList.map (·, name)
  | .call .closeNode =>
    (i.opened.head?.filter fun node => i.repository.hasNode node).toList.flatMap i.settled
  | _ => []

/-- A property refers to known identifiers only. -/
def OnlyKnown (known : String → Prop) (i : Import) (owner name : String) : Prop :=
  ∀ p, i.repository.property? owner name = some p → ∀ id, p.Refers id → known id

/-- What is allowed if a property is to refer to known identifiers only. -/
def AllowsOnly (owner name : String) (known : String → Prop) (owner' name' id : String) : Prop :=
  owner' = owner → name' = name → known id

theorem IsSourced.onlyKnown (h : IsSourced (AllowsOnly owner name known) known i) :
    OnlyKnown known i owner name :=
  fun p hp id hid => h.held owner name p hp id hid rfl rfl

/-- Other properties do not matter. -/
theorem OnlyKnown.isSourced (h : OnlyKnown known i owner name) (hi : IsSourced allowed known i) :
    IsSourced (AllowsOnly owner name known) known i where
  held := by
    rintro owner' name' p hp id hid rfl rfl
    exact h p hp id hid
  pending := hi.pending

theorem OnlyKnown.of_property? (hp : ∀ id, p.Refers id → known id)
    (h : i.repository.property? owner name = some p) : OnlyKnown known i owner name := by
  intro p' hp' id hid
  obtain rfl := Option.some.inj (h.symm.trans hp')
  exact hp id hid

theorem property?_of_setProperty_ok
    (h : outcome (onRepository (Repository.setProperty node name p)) i = (.ok (), j)) :
    j.repository.property? node name = some p := by
  rw [onRepository, outcome_onRepositoryWith, Repository.outcome_setProperty] at h
  cases hn : i.repository.node? node with
  | none =>
    rw [hn] at h
    cases h
  | some n =>
    rw [hn] at h
    obtain ⟨-, rfl⟩ := Prod.mk.inj h
    rw [Repository.property?, Repository.node?, Table.get?_insert, if_pos rfl, Option.bind_some,
      Table.get?_insert, if_pos rfl]

theorem property?_of_write_ok (h : outcome (write node name p) i = (.ok (), j)) :
    j.repository.property? node name = some p := by
  obtain ⟨_, k, hset, hrecord⟩ := outcome_bind_eq_ok h
  have hp : k.repository.property? node name = some p := property?_of_setProperty_ok hset
  obtain ⟨-, rfl⟩ := Prod.mk.inj hrecord
  exact hp

theorem AllowsOnly.of_known (owner name : String) :
    ∀ owner' name' id, known id → AllowsOnly owner name known owner' name' id :=
  fun _ _ _ hid _ _ => hid

/-! ## Single references and lists -/

section Set

variable (hi : IsSound allowed known i)

include hi

theorem onlyKnown_of_assign {text : String}
    (hnode : i.repository.hasNode (Path.resolve node text) = true)
    (h : outcome (assign node name .reference text) i = (.ok (), j)) :
    OnlyKnown known j node name := by
  obtain ⟨n, hn⟩ := Repository.exists_node?_of_hasNode hnode
  have hlookUp : outcome (lookUp node name text) i = (.ok (.ok n.identifier), i) := by
    simp [lookUp, hn]
  rw [assign, if_pos rfl, outcome_bind_of_ok hlookUp] at h
  refine .of_property? (fun id hid => ?_) (property?_of_write_ok h)
  obtain rfl := Value.reference.inj hid
  exact hi.2 (Path.resolve node text) _ (by rw [identifier?, hn]; rfl)

theorem onlyKnown_of_assignAll (hnode : Path.isWithin node Path.root = true) {texts : List String}
    (h : outcome (assignAll node name .reference texts) i = (.ok (), j)) :
    OnlyKnown known j node name := by
  rw [assignAll, if_pos rfl] at h
  obtain ⟨found, k, hlookUp, hwrite⟩ := outcome_bind_eq_ok h
  have hfound := (keeps_lookUpAll (isFound_lookUp hnode) texts i hi).2 found (by rw [hlookUp])
  refine .of_property? (p := .multiple .reference
    ((found.filterMap Except.toOption).map .reference)) (fun id hid => ?_) ?_
  · obtain ⟨id', hid', heq⟩ := List.mem_map.1 hid
    obtain rfl := Value.reference.inj heq
    exact known_of_found hfound id' hid'
  · dsimp only at hwrite
    split at hwrite
    · obtain ⟨_, k', -, hwrite⟩ := outcome_bind_eq_ok hwrite
      exact property?_of_write_ok hwrite
    · exact property?_of_write_ok hwrite

end Set

/-! ## References that waited -/

theorem onlyKnown_of_settleProperty {id path : String} (hid : known id)
    (hi : IsSourced allowed known i) (hparent : Path.parent? path = some owner)
    (howner : i.repository.hasNode owner = true)
    (h : outcome (settleProperty node id path) i = (.ok (), j)) :
    OnlyKnown known j owner (Path.name path) := by
  have hsettle : settleProperty node id path = (do
      if (← get).repository.hasNode owner then
        let property ← settledProperty path node id
        onRepository (Repository.setProperty owner (Path.name path) property)) := by
    rw [settleProperty, hparent]
  rw [hsettle, outcome_bind_of_ok (outcome_get i), if_pos howner] at h
  obtain ⟨property, k, hproperty, hset⟩ := outcome_bind_eq_ok h
  have hrefers := (known_settledProperty hid path node i hi).2 property (by rw [hproperty])
  exact .of_property? hrefers (property?_of_setProperty_ok hset)

theorem onlyKnown_of_forM {id path : String} {paths : List String} (hid : known id)
    (hallowed : ∀ owner name id, known id → allowed owner name id)
    (hi : IsSourced allowed known i) (hpath : path ∈ paths)
    (hparent : Path.parent? path = some owner) (howner : i.repository.hasNode owner = true)
    (h : outcome (paths.forM (settleProperty node id)) i = (.ok (), j)) :
    OnlyKnown known j owner (Path.name path) := by
  induction paths generalizing i with
  | nil => cases hpath
  | cons q paths ih =>
    obtain ⟨_, k, hfirst, hrest⟩ := outcome_bind_eq_ok h
    have hk := (sourced_settleProperty hallowed hid node q i hi).1
    have htree := (sameTree_settleProperty node id q i (.refl i)).1
    rw [hfirst] at hk htree
    by_cases hq : path = q
    · -- what is written to the property later on is known as well
      have hsettled := onlyKnown_of_settleProperty hid hi hparent howner (hq ▸ hfirst)
      have hkept : Keeps (IsSourced (AllowsOnly owner (Path.name path) known) known)
          (paths.forM (settleProperty node id)) := .forM fun q _ =>
        sourced_settleProperty (AllowsOnly.of_known owner (Path.name path)) hid node q
      have hj := (hkept k (hsettled.isSourced hk)).1
      change outcome (paths.forM (settleProperty node id)) k = _ at hrest
      rw [hrest] at hj
      exact hj.onlyKnown
    · exact ih hk ((List.mem_cons.1 hpath).resolve_left hq) (htree.hasNode owner ▸ howner) hrest

/-- Closing a node comes to settling its references; the properties that are removed before do not
wait. -/
theorem exists_outcome_settleReferences {rest : List String} (hi : IsSourced allowed known i)
    (hopened : i.opened = node :: rest) (h : outcome closeNode i = (.ok (), j)) :
    ∃ k, IsSourced allowed known k ∧ k.waiting = i.waiting ∧
      (∀ q, k.identifier? q = i.identifier? q) ∧
      outcome (settleReferences node) k = (.ok (), j) := by
  obtain ⟨names, k, hclose, hdrops, -⟩ := drops_closeNode hopened
  refine ⟨k, ⟨fun owner name p hp => ?_, ?_⟩, hdrops.same.waiting, hdrops.same.identifier,
    hclose.symm.trans h⟩
  · rw [hdrops.property] at hp
    split at hp
    · cases hp
    · exact hi.held owner name p hp
  · rw [hdrops.pending]
    exact hi.pending

theorem onlyKnown_of_closeNode {rest : List String}
    (hallowed : ∀ owner name id, known id → allowed owner name id)
    (hi : IsSound allowed known i) (hopened : i.opened = node :: rest)
    (hnode : i.repository.hasNode node = true) (hsettled : (owner, name) ∈ i.settled node)
    (h : outcome closeNode i = (.ok (), j)) : OnlyKnown known j owner name := by
  obtain ⟨path, hpath, hbind⟩ := List.mem_filterMap.1 hsettled
  obtain ⟨owner', hparent, hite⟩ := Option.bind_eq_some_iff.1 hbind
  split at hite
  · next howner =>
    obtain ⟨rfl, rfl⟩ := Prod.mk.inj (Option.some.inj hite)
    obtain ⟨k, hk, hwaiting, hidentifier, hreferences⟩ :=
      exists_outcome_settleReferences hi.1 hopened h
    have hhas : ∀ q, k.repository.hasNode q = i.repository.hasNode q := fun q => by
      rw [← isSome_identifier?, hidentifier, isSome_identifier?]
    obtain ⟨n, hn⟩ := Repository.exists_node?_of_hasNode ((hhas node).trans hnode)
    have hid : known n.identifier := by
      refine hi.2 node n.identifier ?_
      rw [← hidentifier, identifier?, hn]
      rfl
    rw [outcome_settleReferences, hn, hwaiting] at hreferences
    exact onlyKnown_of_forM (i := { k with waiting := i.waiting.erase node }) hid hallowed
      ⟨hk.held, hk.pending⟩ hpath hparent ((hhas owner').trans howner) hreferences
  · cases hite

/-! ## Actions -/

theorem exists_of_mem_filter_head? {f : String → Bool} {node : String}
    (h : node ∈ (i.opened.head?.filter f).toList) :
    (∃ rest, i.opened = node :: rest) ∧ f node = true := by
  obtain ⟨hhead, hf⟩ := Option.filter_eq_some_iff.1 (Option.mem_toList.1 h)
  exact ⟨List.head?_eq_some_iff.1 hhead, hf⟩

/-- **What an action writes references to then refers to identifiers of nodes only.** -/
theorem onlyKnown_of_assigned (hallowed : ∀ owner name id, known id → allowed owner name id)
    (hi : IsSound allowed known i)
    (hroot : ∀ path ∈ i.opened, Path.isWithin path Path.root = true)
    (hassigned : (owner, name) ∈ i.assigned a) (h : outcome a.step i = (.ok (), j)) :
    OnlyKnown known j owner name := by
  have hmentioned : ∀ name,
      IsSound allowed known { i with mentioned := including i.mentioned name } :=
    fun name => (isStable_sound.mention name i hi).1
  unfold assigned at hassigned
  split at hassigned
  · next name' text =>
    obtain ⟨node, hmem, heq⟩ := List.mem_map.1 hassigned
    obtain ⟨⟨rest, hopened⟩, hcond⟩ := exists_of_mem_filter_head? hmem
    obtain ⟨rfl, rfl⟩ := Prod.mk.inj heq
    obtain ⟨hkeeps, hnode⟩ := Bool.and_eq_true_iff.1 hcond
    rw [Action.step, perform, setProperty_eq, outcome_setWith hopened,
      if_neg (by simpa using hkeeps)] at h
    exact onlyKnown_of_assign (hmentioned _) hnode h
  · next name' texts =>
    obtain ⟨node, hmem, heq⟩ := List.mem_map.1 hassigned
    obtain ⟨⟨rest, hopened⟩, hkeeps⟩ := exists_of_mem_filter_head? hmem
    obtain ⟨rfl, rfl⟩ := Prod.mk.inj heq
    rw [Action.step, perform, setProperties_eq, outcome_setWith hopened,
      if_neg (by simpa using hkeeps)] at h
    exact onlyKnown_of_assignAll (hmentioned _) (hroot node (hopened ▸ List.mem_cons_self)) h
  · obtain ⟨node, hmem, hsettled⟩ := List.mem_flatMap.1 hassigned
    obtain ⟨⟨rest, hopened⟩, hnode⟩ := exists_of_mem_filter_head? hmem
    exact onlyKnown_of_closeNode hallowed hi hopened hnode hsettled h
  · cases hassigned

/-! ## Runs -/

/-- In the course of actions, the identifiers of nodes are known and what is open has a path from
the root. -/
structure IsCourse (known : String → Prop) (i : Import) (actions : List Action) : Prop where
  known : ∀ before rest, actions = before ++ rest → KnowsNodes known (before.foldl after i)
  opened : ∀ before rest, actions = before ++ rest →
    ∀ path ∈ (before.foldl after i).opened, Path.isWithin path Path.root = true

theorem IsCourse.tail (h : IsCourse known i (a :: actions)) :
    IsCourse known (i.after a) actions where
  known := fun before rest heq => h.known (a :: before) rest (congrArg (a :: ·) heq)
  opened := fun before rest heq => h.opened (a :: before) rest (congrArg (a :: ·) heq)

theorem IsSourced.foldl_after (hallowed : ∀ owner name id, known id → allowed owner name id)
    (hi : IsSourced allowed known i) (h : IsCourse known i actions) :
    IsSourced allowed known (actions.foldl Import.after i) := by
  induction actions generalizing i with
  | nil => exact hi
  | cons a actions ih =>
    exact ih (hi.after hallowed (h.known [] _ rfl) (h.opened [] _ rfl) a) h.tail

/-- Actions that do not fail lead from one state to the next. -/
theorem foldl_after_of_ok (h : outcome (actions.forM Action.step) i = (.ok (), j)) :
    actions.foldl after i = j := by
  induction actions generalizing i with
  | nil => exact congrArg Prod.snd h
  | cons a actions ih =>
    obtain ⟨_, k, hstep, hrest⟩ := outcome_bind_eq_ok h
    have hafter : i.after a = k := congrArg Prod.snd hstep
    rw [List.foldl_cons, hafter]
    exact ih hrest

/-- **What actions write references to refers to identifiers of nodes only, in the end too.** -/
theorem onlyKnown_of_trace (hallowed : ∀ owner name id, known id → allowed owner name id)
    (hi : IsSourced allowed known i) (hcourse : IsCourse known i actions)
    (hassigned : (owner, name) ∈ trace assigned i actions)
    (h : outcome (actions.forM Action.step) i = (.ok (), j)) :
    OnlyKnown known j owner name := by
  induction actions generalizing i with
  | nil => cases hassigned
  | cons a actions ih =>
    obtain ⟨_, k, hstep, hrest⟩ := outcome_bind_eq_ok h
    have hknown := hcourse.known [] _ rfl
    have hroot := hcourse.opened [] _ rfl
    obtain rfl : i.after a = k := congrArg Prod.snd hstep
    have hafter := hi.after hallowed hknown hroot a
    rcases List.mem_append.1 hassigned with hassigned | hassigned
    · have honly := onlyKnown_of_assigned hallowed ⟨hi, hknown⟩ hroot hassigned hstep
      have hlast := (honly.isSourced hafter).foldl_after (AllowsOnly.of_known owner name)
        hcourse.tail
      rw [foldl_after_of_ok hrest] at hlast
      exact hlast.onlyKnown
    · exact ih hafter hcourse.tail hassigned hrest

end ContentImport.Import
