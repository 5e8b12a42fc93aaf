import ContentImport.Proofs.Import.Growth

/-!
# Carrying out calls once more

Once calls have been carried out, nodes are only opened that are there with their mixin types, and
properties are only set that are there already, or whose nodes are still missing. So carrying out
the same calls again changes nothing (`exists_outcome_run_again`).

Both runs go on side by side. The second one is always in the repository that the first one leaves
in the end, and has the same nodes open (`Repeats`). What a call of the first run adds is still
there in the end, since nothing is taken away (`Grows`). That leaves the properties that wait: in
the end such a property is there, or else what it waits for is not (`IsPromised`).
-/

namespace ContentImport.Import

/-! ## Plain calls -/

/-- A call opens or closes a node, or sets a property whose name has no slash. -/
def IsPlainCall : Call → Prop
  | .openNode _ _ _ | .closeNode => True
  | .setProperty name _ _ | .setProperties name _ _ => name ≠ "" ∧ '/' ∉ name.toList
  | _ => False

variable {i j k e : Import} {target owner name node : String} {rest : List String} {c : Call}

/-- What opening a node comes to depends on the open nodes and on the default name. -/
theorem opening_eq (hopened : k.opened = i.opened) (hname : k.defaultName = i.defaultName)
    (name : Option String) : k.opening name = i.opening name := by
  unfold opening
  rw [hopened, hname]

/-- If opening a node succeeds, then nothing is done, or a child is opened. -/
theorem openNode_ok {name type : Option String} {mixins : List String}
    (h : outcome (openNode name type mixins) i = (.ok (), j)) :
    (name = none ∧ i.opening name = .ok none ∧ j = i) ∨
      ∃ parent child, i.opening name = .ok (some (parent, child)) ∧
        outcome (openChild parent child type mixins) i = (.ok (), j) := by
  rw [outcome_openNode] at h
  split at h
  · cases h
  · next hopening =>
    refine .inl ⟨?_, hopening, (Prod.mk.inj h).2.symm⟩
    unfold opening at hopening
    split at hopening
    · cases hopening
    · cases hopening
    · rfl
    · rfl
  · next child hopening => exact .inr ⟨child.1, child.2, hopening, h⟩

/-- A child that is there with the mixin types is only opened. -/
theorem outcome_addMixins_of_hasType {n : Node} (hn : i.repository.node? node = some n)
    {mixins : List String} (hmixins : ∀ mixin ∈ mixins, n.hasType mixin = true) :
    outcome (addMixins node mixins) i = (.ok (), i) := by
  induction mixins with
  | nil => rfl
  | cons mixin mixins ih =>
    obtain ⟨hmixin, hmixins⟩ := List.forall_mem_cons.1 hmixins
    have hcons : addMixins node (mixin :: mixins) =
        discard (onRepository (Repository.addMixin node mixin)) >>= fun _ =>
          addMixins node mixins := rfl
    have hadd : outcome (discard (onRepository (Repository.addMixin node mixin))) i =
        (.ok (), i) := by
      simp [outcome_discard, Repository.outcome_addMixin, hn, hmixin]
    rw [hcons, outcome_bind_of_ok hadd, ih hmixins]

theorem outcome_openChild_of_hasType (hover : i.options.overwrite = false) {parent child : String}
    {n : Node} (hn : i.repository.node? (Path.join parent child) = some n) (type : Option String)
    {mixins : List String} (hmixins : ∀ mixin ∈ mixins, n.hasType mixin = true) :
    outcome (openChild parent child type mixins) i =
      (.ok (), i.withOpen i.repository i.created (Path.join parent child)) := by
  have hnode := Repository.hasNode_of_node? hn
  rw [openChild]
  simp [hover, hnode, outcome_addMixins_of_hasType hn hmixins, withOpen]

/-! ## Ready imports -/

/-- An import leaves alone what is there, and its target is there, as well as the open nodes. -/
structure IsReady (target : String) (i : Import) : Prop where
  options : i.options.IsAdditive
  target : i.repository.hasNode target = true
  opened : ∀ path ∈ i.opened, path ≠ "" ∧ i.repository.hasNode path = true

theorem opened_of_setProperty {type : ValueType} {text : String}
    (h : outcome (setProperty name type text) i = (.ok (), j)) : j.opened = i.opened := by
  have htree := (sameTree_setProperty name type text i (.refl i)).1
  rw [h] at htree
  exact htree.place.opened

theorem opened_of_setProperties {type : ValueType} {texts : List String}
    (h : outcome (setProperties name type texts) i = (.ok (), j)) : j.opened = i.opened := by
  have htree := (sameTree_setProperties name type texts i (.refl i)).1
  rw [h] at htree
  exact htree.place.opened

/-- Plain calls keep an import ready. -/
theorem IsReady.of_perform (hi : IsReady target i) (hc : IsPlainCall c)
    (h : outcome (perform c) i = (.ok (), j)) : IsReady target j := by
  have hgrows := grows_of_perform hi.options h
  refine ⟨hgrows.options ▸ hi.options, hgrows.repository.hasNode hi.target, ?_⟩
  have hold : ∀ path ∈ i.opened, path ≠ "" ∧ j.repository.hasNode path = true :=
    fun path hpath => (hi.opened path hpath).imp_right hgrows.repository.hasNode
  cases c with
  | openNode name type mixins =>
    rcases openNode_ok h with ⟨-, -, rfl⟩ | ⟨parent, child, -, hopen⟩
    · exact hold
    · have hopens := openChild_ok hopen
      rw [hopens.opened]
      exact List.forall_mem_cons.2 ⟨⟨Path.join_ne_empty parent child, hopens.hasNode⟩, hold⟩
  | closeNode =>
    obtain ⟨node, rest, hopened, htree⟩ := closeNode_ok h
    rw [htree.place.opened]
    exact fun path hpath => hold path (hopened ▸ List.mem_cons_of_mem node hpath)
  | setProperty => exact (opened_of_setProperty h).symm ▸ hold
  | setProperties => exact (opened_of_setProperties h).symm ▸ hold
  | _ => cases hc

/-! ## Promises -/

/-- A property of a node is there, or it waits for a node, which is not there unless it is open. -/
structure IsPromised (owner name node : String) (i : Import) : Prop where
  ownerNode : i.repository.hasNode owner = true
  promise : (i.repository.property? owner name).isSome = true ∨
    (Path.join owner name ∈ i.waits owner name node ∧
      (i.repository.hasNode node = true → node ∈ i.opened))

/-- A property that is to wait for a missing node is promised. -/
theorem IsPromised.of_await (howner : i.repository.hasNode owner = true)
    (hself : standsFor owner name (Path.join owner name) = true)
    (hmissing : i.repository.hasNode node = false) :
    IsPromised owner name node (i.await node (Path.join owner name)) where
  ownerNode := howner
  promise := by
    refine .inr ⟨List.mem_filter.2 ⟨?_, hself⟩, fun hnode => ?_⟩
    · simp [Import.await, Table.get?_insert]
    · rw [show (i.await node (Path.join owner name)).repository = i.repository from rfl,
        hmissing] at hnode
      cases hnode

/-- Once no other node is open than the target, a promise has been kept, or the node is missing. -/
theorem IsPromised.isSome_or (h : IsPromised owner name node i)
    (hclosed : ∀ path ∈ i.opened, path = target) (hnode : node ≠ target) :
    (i.repository.property? owner name).isSome = true ∨ i.repository.hasNode node = false := by
  refine h.promise.imp_right fun ⟨_, hopen⟩ => Bool.eq_false_iff.2 fun hthere => ?_
  exact hnode (hclosed node (hopen hthere))

theorem IsPromised.of_undisturbed (h : IsPromised owner name node i)
    (hu : Undisturbed owner name i j) : IsPromised owner name node j where
  ownerNode := hu.hasNode h.ownerNode
  promise := by
    refine h.promise.imp (fun hset => by rwa [hu.property]) fun ⟨hwaits, hopen⟩ =>
      ⟨?_, fun hnode => ?_⟩
    · rwa [hu.waits]
    · rcases hu.fresh node hnode with hold | hnew | hclosed
      · exact (hu.opened node (hopen hold)).elim id (by simp)
      · exact hnew
      · cases hclosed

/-- An operation neither adds nor removes a node, and removes no property. -/
def OnlySets (op : Repository.Operation) : Prop := KeepsTree op ∧ op.TakesNothing

theorem isKeptBy_promised : IsKeptBy OnlySets (IsPromised owner name node) where
  principals := by
    intro op hop
    cases op with
    | createUser | createGroup | addMember | setAuthorizableProperty => exact ⟨trivial, trivial⟩
    | _ => exact hop.elim
  operation := by
    intro op hop i h
    refine ⟨(hasNode_after hop.1 _ _).trans h.ownerNode, ?_⟩
    refine h.promise.imp (hop.2.grows i.repository).isSome_property? fun ⟨hwaits, hopen⟩ =>
      ⟨hwaits, fun hnode => hopen ?_⟩
    rwa [hasNode_after hop.1] at hnode
  notes := fun _ _ _ _ h => ⟨h.ownerNode, h.promise⟩

theorem IsPromised.await (h : IsPromised owner name node i) (target path : String) :
    IsPromised owner name node (i.await target path) :=
  ⟨h.ownerNode, h.promise.imp_right fun ⟨hwaits, hopen⟩ =>
    ⟨mem_waits_await hwaits target path, hopen⟩⟩

theorem isPromised_write (other otherName : String) (property : Property) :
    Keeps (IsPromised owner name node) (write other otherName property) :=
  (isKeptBy_promised.onRepository (.setProperty other otherName property) ⟨trivial, trivial⟩
    fun _ => rfl).bind fun _ _ => .modify fun _ h => ⟨h.ownerNode, h.promise⟩

/-- When a node is closed, what was promised to a property once the node is there, is kept. -/
theorem IsPromised.of_closeNode (h : IsPromised owner name node i) (hi : IsReady target i)
    (hclose : outcome closeNode i = (.ok (), j)) : IsPromised owner name node j := by
  have hgrows : i.Grows j := grows_of_perform (c := .closeNode) hi.options hclose
  obtain ⟨closed, rest, hopened, htree⟩ := closeNode_ok hclose
  have hclosed := (hi.opened closed (hopened ▸ List.mem_cons_self)).2
  obtain ⟨hwaiting, hsettled⟩ := closeNode_waiting hopened hclosed hclose
  refine ⟨hgrows.repository.hasNode h.ownerNode, ?_⟩
  rcases h.promise with hset | ⟨hwaits, hopen⟩
  · exact .inl (hgrows.repository.isSome_property? hset)
  by_cases hnode : node = closed
  · obtain ⟨hmem, hstands⟩ := List.mem_filter.1 hwaits
    obtain ⟨hparent, hname⟩ : Path.parent? (Path.join owner name) = some owner ∧
        Path.name (Path.join owner name) = name := by simpa [standsFor] using hstands
    have hset := hsettled _ (hnode ▸ hmem) owner hparent h.ownerNode
    rw [hname] at hset
    exact .inl hset
  · refine .inr ⟨?_, fun hnow => ?_⟩
    · rwa [waits, hwaiting node hnode]
    · have hbefore : i.repository.hasNode node = true := (htree.hasNode node).symm.trans hnow
      have hmem := hopen hbefore
      rw [hopened] at hmem
      rw [htree.place.opened]
      exact (List.mem_cons.1 hmem).resolve_left hnode

/-- **Plain calls keep promises.** -/
theorem IsPromised.of_perform (h : IsPromised owner name node i) (hi : IsReady target i)
    (hc : IsPlainCall c) (hperform : outcome (perform c) i = (.ok (), j)) :
    IsPromised owner name node j := by
  have hkeeps : Keeps (IsPromised owner name node) (perform c) → IsPromised owner name node j := by
    intro hkeeps
    have hafter := (hkeeps i h).1
    rwa [hperform] at hafter
  cases c with
  | openNode child type mixins =>
    have hspared : Undisturbed owner name i (outcome (openNode child type mixins) i).2 :=
      undisturbed_openNode hi.options.overwrite child type mixins
    rw [show outcome (openNode child type mixins) i = (.ok (), j) from hperform] at hspared
    exact h.of_undisturbed hspared
  | closeNode => exact h.of_closeNode hi hperform
  | setProperty other type text =>
    exact hkeeps (isKeptBy_promised.setProperty isPromised_write
      (fun _ _ _ h => h.await _ _) other type text)
  | setProperties other type texts =>
    exact hkeeps (isKeptBy_promised.setProperties isPromised_write
      (fun _ _ _ h => h.await _ _) (fun _ _ h => ⟨h.ownerNode, h.promise⟩) other type texts)
  | _ => cases hc

/-! ## What is left in the end -/

/-- From one state an import came to another one, in which nothing is taken away and promises are
kept. -/
structure Leads (i e : Import) : Prop where
  grows : i.Grows e
  promise : ∀ owner name node, IsPromised owner name node i → IsPromised owner name node e

theorem leads_of_forM {calls : List Call} (hi : IsReady target i)
    (hcalls : ∀ c ∈ calls, IsPlainCall c) (h : outcome (calls.forM perform) i = (.ok (), e)) :
    Leads i e := by
  induction calls generalizing i with
  | nil =>
    obtain ⟨-, rfl⟩ := Prod.mk.inj h
    exact ⟨.refl i, fun _ _ _ h => h⟩
  | cons c calls ih =>
    obtain ⟨hc, hcalls⟩ := List.forall_mem_cons.1 hcalls
    have hcons : (c :: calls).forM perform = perform c >>= fun _ => calls.forM perform := rfl
    rw [hcons] at h
    obtain ⟨_, j, hj, h⟩ := outcome_bind_eq_ok h
    have hrest := ih (hi.of_perform hc hj) hcalls h
    exact ⟨(grows_of_perform hi.options hj).trans hrest.grows,
      fun owner name node hp => hrest.promise owner name node (hp.of_perform hi hc hj)⟩

/-! ## The second run -/

/-- A second run has the same nodes open as the first one. So far it has done nothing in its
repository, and nothing waits but for nodes that are missing. -/
structure Repeats (r : Repository) (i k : Import) : Prop where
  options : k.options.IsAdditive
  opened : k.opened = i.opened
  defaultName : k.defaultName = i.defaultName
  repository : k.repository = r
  created : k.created = []
  written : k.written = []
  waiting : ∀ path, r.hasNode path = true → k.waiting.get? path = none

namespace Repeats

variable {r : Repository}

theorem of_grows (hk : Repeats r i k) (hgrows : i.Grows j) (hopened : j.opened = i.opened) :
    Repeats r j k :=
  { hk with
    opened := hk.opened.trans hopened.symm
    defaultName := hk.defaultName.trans hgrows.defaultName.symm }

/-- It does not matter what the content mentions, and what it asks to check in. -/
theorem note (hk : Repeats r i k) (mentioned versionable : List String) :
    Repeats r i { k with mentioned, versionable } :=
  { hk with }

/-- Opening a node that is there with its mixin types changes nothing. -/
theorem openChild (hk : Repeats r i k) {parent child : String} {n : Node}
    (hn : r.node? (Path.join parent child) = some n) (type : Option String) {mixins : List String}
    (hmixins : ∀ mixin ∈ mixins, n.hasType mixin = true) (hgrows : i.Grows j)
    (hopened : j.opened = Path.join parent child :: i.opened) :
    ∃ k', outcome (openChild parent child type mixins) k = (.ok (), k') ∧ Repeats r j k' := by
  refine ⟨k.withOpen k.repository k.created (Path.join parent child),
    outcome_openChild_of_hasType hk.options.overwrite (hk.repository ▸ hn) type hmixins, ?_⟩
  exact
    { hk with
      opened := (congrArg _ hk.opened).trans hopened.symm
      defaultName := hk.defaultName.trans hgrows.defaultName.symm }

/-- Nothing waits for a node that is closed. -/
theorem closeNode (hk : Repeats r i k) (hopened : i.opened = node :: rest)
    (hnode : r.hasNode node = true) (hgrows : i.Grows j) (hrest : j.opened = rest) :
    ∃ k', outcome closeNode k = (.ok (), k') ∧ Repeats r j k' := by
  refine ⟨{ k with opened := rest }, ?_, ?_⟩
  · exact outcome_closeNode_of_none (hk.opened.trans hopened) hk.options.propertyMerge
      (hk.waiting node hnode)
  · exact
      { hk with
        opened := hrest.symm
        defaultName := hk.defaultName.trans hgrows.defaultName.symm }

/-- A property that is there in the end is kept. One that is not, was set by the first run too. -/
theorem setWith (hk : Repeats e.repository i k) (hgrows : i.Grows e) {set : String → Step Unit}
    (h : outcome (setWith name set) i = (.ok (), j))
    (hset : ∀ node rest, i.opened = node :: rest → e.repository.property? node name = none →
      outcome (set node) { i with mentioned := including i.mentioned name } = (.ok (), j) →
      ∀ k, Repeats e.repository i k →
        ∃ k', outcome (set node) k = (.ok (), k') ∧ Repeats e.repository i k') :
    ∃ k', outcome (setWith name set) k = (.ok (), k') ∧ Repeats e.repository i k' := by
  cases hopened : i.opened with
  | nil =>
    rw [outcome_setWith_of_nil hopened] at h
    cases h
  | cons node rest =>
    have hnoted := hk.note (including k.mentioned name) k.versionable
    rw [outcome_setWith (hk.opened.trans hopened)]
    split
    · exact ⟨_, rfl, hnoted⟩
    next hkeeps =>
    have hnone : e.repository.property? node name = none := by
      simpa [keeps, hk.repository, hk.options.propertyOverwrite, hk.written] using hkeeps
    refine hset node rest hopened hnone ?_ _ hnoted
    rwa [outcome_setWith_of_new hopened (hgrows.repository.property?_eq_none hnone)] at h

/-- A property that asks to check in a node changes nothing. One whose node is missing waits. -/
theorem assign (hk : Repeats r i k) {type : ValueType} {text : String}
    (h : (type ≠ .reference ∧ name = checkedOutName) ∨
      (type = .reference ∧ r.hasNode (Path.resolve node text) = false)) :
    ∃ k', outcome (assign node name type text) k = (.ok (), k') ∧ Repeats r i k' := by
  rcases h with ⟨htype, rfl⟩ | ⟨rfl, hmissing⟩
  · rw [Import.assign, if_neg htype, if_pos rfl]
    split
    · exact ⟨_, rfl, hk.note k.mentioned _⟩
    · exact ⟨k, rfl, hk⟩
  · have hnone : k.repository.node? (Path.resolve node text) = none := by
      rw [hk.repository]
      exact Option.isNone_iff_eq_none.1 (Option.isSome_eq_false_iff.1 hmissing)
    refine ⟨k.await (Path.resolve node text) (Path.join node name), ?_, ?_⟩
    · rw [Import.assign, if_pos rfl, lookUp, outcome_bind, outcome_bind, outcome_get]
      dsimp only
      rw [hnone]
      rfl
    · refine { hk with waiting := fun path hpath => ?_ }
      rw [await, Table.get?_insert, if_neg]
      · exact hk.waiting path hpath
      · rintro rfl
        rw [hmissing] at hpath
        cases hpath

end Repeats

section Again

variable (hi : IsReady target i) (hleads : Leads j e) (hclosed : ∀ path ∈ e.opened, path = target)
  (hk : Repeats e.repository i k)

include hi hleads hclosed hk

theorem exists_outcome_setProperty_again {type : ValueType} {text : String}
    (hname : name ≠ "" ∧ '/' ∉ name.toList)
    (h : outcome (setProperty name type text) i = (.ok (), j)) :
    ∃ k', outcome (setProperty name type text) k = (.ok (), k') ∧ Repeats e.repository i k' := by
  have hgrows : i.Grows j := grows_of_perform (c := .setProperty name type text) hi.options h
  rw [setProperty_eq] at h ⊢
  refine hk.setWith (hgrows.trans hleads.grows) h fun node rest hopened hnone h k hk => hk.assign ?_
  rcases assign_ok h with hset | hcheckedOut | ⟨htype, hmissing, rfl⟩
  · have hlater := hleads.grows.repository.isSome_property? hset
    simp [hnone] at hlater
  · exact .inl hcheckedOut
  · obtain ⟨hnode, howner⟩ := hi.opened node (hopened ▸ List.mem_cons_self)
    have hnew : i.repository.hasNode (Path.resolve node text) = false :=
      Option.isSome_eq_false_iff.2 (Option.isNone_iff_eq_none.2 hmissing)
    have hpromise := hleads.promise node name (Path.resolve node text)
      (.of_await howner (standsFor_join hnode hname) hnew)
    have htarget : Path.resolve node text ≠ target := by
      intro heq
      rw [heq, hi.target] at hnew
      cases hnew
    refine .inr ⟨htype, (hpromise.isSome_or hclosed htarget).resolve_left ?_⟩
    simp [hnone]

omit hclosed in
theorem exists_outcome_setProperties_again {type : ValueType} {texts : List String}
    (h : outcome (setProperties name type texts) i = (.ok (), j)) :
    ∃ k', outcome (setProperties name type texts) k = (.ok (), k') ∧ Repeats e.repository i k' := by
  have hgrows : i.Grows j := grows_of_perform (c := .setProperties name type texts) hi.options h
  rw [setProperties_eq] at h ⊢
  refine hk.setWith (hgrows.trans hleads.grows) h fun node rest hopened hnone h => ?_
  have hlater := hleads.grows.repository.isSome_property? (isSome_of_assignAll h)
  simp [hnone] at hlater

/-- **A call that was carried out is carried out again without a change.** -/
theorem exists_outcome_perform_again (hc : IsPlainCall c)
    (h : outcome (perform c) i = (.ok (), j)) :
    ∃ k', outcome (perform c) k = (.ok (), k') ∧ Repeats e.repository j k' := by
  have hgrows := grows_of_perform hi.options h
  cases c with
  | openNode child type mixins =>
    have hopening := opening_eq hk.opened hk.defaultName child
    rcases openNode_ok h with ⟨-, hnone, rfl⟩ | ⟨parent, child', hchild, hopen⟩
    · refine ⟨k, ?_, hk⟩
      rw [perform, outcome_openNode, hopening, hnone]
    · obtain ⟨n, hn, hmixins⟩ := exists_node_of_openChild hi.options.overwrite hopen
      obtain ⟨n', hn', hlater⟩ := hleads.grows.repository _ n hn
      obtain ⟨k', hk', hrepeats⟩ := hk.openChild hn' type
        (fun mixin hmixin => hlater.hasType mixin (hmixins mixin hmixin)) hgrows
        (openChild_ok hopen).opened
      refine ⟨k', ?_, hrepeats⟩
      rw [perform, outcome_openNode, hopening, hchild]
      exact hk'
  | closeNode =>
    obtain ⟨node, rest, hopened, htree⟩ := closeNode_ok h
    have hnode := (hi.opened node (hopened ▸ List.mem_cons_self)).2
    exact hk.closeNode hopened ((hgrows.trans hleads.grows).repository.hasNode hnode) hgrows
      htree.place.opened
  | setProperty name type text =>
    obtain ⟨k', hk', hrepeats⟩ := exists_outcome_setProperty_again hi hleads hclosed hk hc h
    exact ⟨k', hk', hrepeats.of_grows hgrows (opened_of_setProperty h)⟩
  | setProperties name type texts =>
    obtain ⟨k', hk', hrepeats⟩ := exists_outcome_setProperties_again hi hleads hk h
    exact ⟨k', hk', hrepeats.of_grows hgrows (opened_of_setProperties h)⟩
  | _ => cases hc

end Again

/-- **Calls that were carried out are carried out again without a change,** if the first run left no
other node open than the target. -/
theorem exists_outcome_forM_again {calls : List Call} (hcalls : ∀ c ∈ calls, IsPlainCall c)
    (hi : IsReady target i) (h : outcome (calls.forM perform) i = (.ok (), e))
    (hclosed : ∀ path ∈ e.opened, path = target) (hk : Repeats e.repository i k) :
    ∃ k', outcome (calls.forM perform) k = (.ok (), k') ∧ Repeats e.repository e k' := by
  induction calls generalizing i k with
  | nil =>
    obtain ⟨-, rfl⟩ := Prod.mk.inj h
    exact ⟨k, rfl, hk⟩
  | cons c calls ih =>
    obtain ⟨hc, hcalls⟩ := List.forall_mem_cons.1 hcalls
    have hcons : (c :: calls).forM perform = perform c >>= fun _ => calls.forM perform := rfl
    rw [hcons] at h ⊢
    obtain ⟨_, j, hj, h⟩ := outcome_bind_eq_ok h
    have hj' := hi.of_perform hc hj
    obtain ⟨k₁, hk₁, hrepeats⟩ := exists_outcome_perform_again hi (leads_of_forM hj' hcalls h)
      hclosed hk hc hj
    obtain ⟨k₂, hk₂, hlast⟩ := ih hcalls hj' h hrepeats
    exact ⟨k₂, (outcome_bind_of_ok hk₁).trans hk₂, hlast⟩

/-- **A script that was carried out is carried out again without a change.** -/
theorem exists_outcome_run_again {s : Script Unit} (hcalls : ∀ c ∈ s.calls, IsPlainCall c)
    (hi : IsReady target i) (h : outcome (run s) i = (.ok (), e))
    (hclosed : ∀ path ∈ e.opened, path = target) (hk : Repeats e.repository i k) :
    ∃ k', outcome (run s) k = (.ok (), k') ∧ Repeats e.repository e k' := by
  obtain ⟨_, e', hforM, hresult⟩ := outcome_bind_eq_ok h
  cases hdone : s.result with
  | error =>
    rw [hdone] at hresult
    cases hresult
  | ok =>
    rw [hdone] at hresult
    obtain ⟨-, rfl⟩ := Prod.mk.inj hresult
    obtain ⟨k', hk', hrepeats⟩ := exists_outcome_forM_again hcalls hi hforM hclosed hk
    refine ⟨k', ?_, hrepeats⟩
    rw [run, hdone]
    exact outcome_bind_of_ok hk'

end ContentImport.Import
