import ContentImport.Proofs.Import.Run
import ContentImport.Proofs.Import.Watch

/-!
# References to nodes that may be missing

A reference to a node that is there is written at once; one to a missing node is written when the
node is closed. If nodes are opened by name only, and existing nodes are neither overwritten nor
merged, this makes no difference in the end (`property?_setReference`).

* `SetsReferencesOnce` is what is asked of the properties that are set to references. No two of them
  are of the same path then, and no other action writes to them.
* `Setting` is what is known when such a property is set, and `Setting.settled` what becomes of it.
* `exists_outcome_lookUp` says what looking up a reference comes to, and the property then waits for
  at most one node (`Watch.awaiting`).
-/

namespace ContentImport.Import

variable {options : ImportOptions} {clock : Int} {r : Repository} {target owner name : String}
  {top : Option String} {i j : Import} {a : Action} {actions before rest : List Action}

/-! ## The beginning of a session -/

/-- A new importer that is prepared for a target. -/
def prepared (options : ImportOptions) (clock : Int) (r : Repository) (target : String)
    (top : Option String) : Import :=
  (outcome (prepare target top) (new options clock r)).2

theorem prepared_eq (options : ImportOptions) (clock : Int) (r : Repository) (target : String)
    (top : Option String) :
    prepared options clock r target top =
      if r.hasNode target then
        { new options clock r with opened := [target], defaultName := top }
      else new options clock r := by
  have hrepository : (new options clock r).repository = r := rfl
  rw [prepared, prepare, outcome_bind, outcome_get]
  dsimp only
  rw [hrepository]
  cases r.hasNode target <;> rfl

theorem foldl_prepared (actions : List Action) :
    actions.foldl after (prepared options clock r target top) =
      session options clock r target top actions := rfl

theorem isSteady_prepared (hover : options.overwrite = false) (hmerge : options.merge = false) :
    IsSteady (prepared options clock r target top) := by
  rw [prepared_eq]
  split
  · next hnode => exact ⟨hover, hmerge, List.forall_mem_singleton.2 hnode⟩
  · exact ⟨hover, hmerge, List.forall_mem_nil _⟩

theorem isQuiet_prepared : IsQuiet owner name (prepared options clock r target top) := by
  rw [prepared_eq]
  split <;> exact ⟨rfl, fun _ => rfl⟩

/-- Without a target nothing is ever open. -/
theorem opened_session_of_hasNode_eq_false (htarget : r.hasNode target = false)
    (actions : List Action) : (session options clock r target top actions).opened = [] := by
  have hnew : prepared options clock r target top = new options clock r := by
    rw [prepared_eq, htarget]
    rfl
  -- the importer may as well have any other target, and no path is within all of them
  have hwithin : ∀ t, ∀ path ∈ (session options clock r target top actions).opened,
      Path.isWithin path t = true := by
    intro t
    have hcontained := (isContained_new options clock r t).foldl_after actions
    rw [← hnew] at hcontained
    exact hcontained.opened
  refine List.eq_nil_iff_forall_not_mem.2 fun path hpath => ?_
  have hle := Path.length_le_of_isWithin (hwithin (Path.join path "a") path hpath)
  rw [Path.toList_join, List.length_append, List.length_cons] at hle
  by_cases hroot : path = Path.root
  · rw [hroot] at hle
    exact absurd hle (by decide)
  · rw [Path.stem_of_ne hroot] at hle
    omega

/-- If anything is open, the target is a node. -/
theorem hasNode_target_of_opened {path : String}
    (hpath : path ∈ (session options clock r target top actions).opened) :
    (prepared options clock r target top).repository.hasNode target = true := by
  cases htarget : r.hasNode target with
  | true =>
    rw [prepared_eq, if_pos htarget]
    exact htarget
  | false =>
    rw [opened_session_of_hasNode_eq_false htarget] at hpath
    cases hpath

/-- All that is ever open lies within the root. -/
theorem isWithin_root_of_mem_opened (hr : r.Reachable) (actions : List Action) {path : String}
    (hpath : path ∈ (session options clock r target top actions).opened) :
    Path.isWithin path Path.root = true := by
  have hcontained :
      IsContained Path.root (new options clock r) (prepared options clock r target top) := by
    have hnew := isContained_new options clock r Path.root
    rw [prepared_eq]
    split
    · next hnode =>
      refine ⟨hnew.repository, rfl, ?_, hnew.imported, hnew.waiting⟩
      exact List.forall_mem_singleton.2 (hr.isTree.isWithin_root hnode)
    · exact hnew
  exact (hcontained.foldl_after actions).opened path hpath

/-! ## Properties that are set to references -/

/-- The properties that an action is to set to references although the node has them. -/
def replaced (i : Import) (a : Action) : List (String × String) :=
  (i.references a).filter fun p => (i.repository.property? p.1 p.2).isSome

/-- Properties that actions set to references have names, which are without slashes, are new to
their nodes, and are set once only. -/
structure SetsReferencesOnce (i : Import) (actions : List Action) : Prop where
  named : ∀ p ∈ trace references i actions, p.2 ≠ "" ∧ '/' ∉ p.2.toList
  new : trace replaced i actions = []
  once : ∀ p ∈ trace references i actions, (trace declared i actions).count p = 1

theorem mem_declared_of_mem_references {p : String × String} (h : p ∈ i.references a) :
    p ∈ i.declared a := by
  unfold references at h
  split at h
  · exact h
  · exact h
  · cases h

theorem mem_opened_of_mem_references {p : String × String} (h : p ∈ i.references a) :
    p.1 ∈ i.opened := by
  have hopened : ∀ other, p ∈ (i.opened.head?.map (·, other)).toList → p.1 ∈ i.opened := by
    intro other hp
    obtain ⟨node, hnode, rfl⟩ := Option.map_eq_some_iff.1 (Option.mem_toList.1 hp)
    exact List.mem_of_mem_head? hnode
  unfold references at h
  split at h
  · exact hopened _ h
  · exact hopened _ h
  · cases h

theorem mem_trace_declared_of_mem {p : String × String} (h : p ∈ trace references i actions) :
    p ∈ trace declared i actions := by
  obtain ⟨before, a, rest, heq, hp⟩ := mem_trace_iff.1 h
  exact mem_trace_iff.2 ⟨before, a, rest, heq, mem_declared_of_mem_references hp⟩

/-- A property is spared that is not set, if no other property that is set to references has a path
that stands for it. -/
theorem spares_of_references (hopens : ∀ a ∈ actions, a.OpensByName)
    (hdeclared : (owner, name) ∉ trace declared i actions)
    (hother : ∀ p ∈ trace references i actions,
      standsFor owner name (Path.join p.1 p.2) = true → p = (owner, name)) :
    Spares owner name i actions where
  opensByName := hopens
  declared := hdeclared
  references := by
    intro p hp
    by_contra hstands
    have hself := hother p hp (Bool.not_eq_false _ ▸ hstands)
    exact hdeclared (hself ▸ mem_trace_declared_of_mem hp)

/-- What is known when an action sets a property to references, some actions being left. -/
structure Setting (owner name : String) (i : Import) (a : Action) (rest : List Action) : Prop where
  /-- The property can be found again by its path. -/
  self : standsFor owner name (Path.join owner name) = true
  steady : IsSteady i
  quiet : IsQuiet owner name i
  new : i.repository.property? owner name = none
  ownerNode : i.repository.hasNode owner = true
  ownerWithin : Path.isWithin owner Path.root = true
  spared : Spares owner name (i.after a) rest
  /-- Nodes that are still open in the end are not among the new ones. -/
  finished : ∀ path ∈ (rest.foldl after (i.after a)).opened, i.repository.hasNode path = true

section Session

variable (hr : r.Reachable) (hover : options.overwrite = false) (hmerge : options.merge = false)
  (hopens : ∀ a ∈ actions, a.OpensByName)
  (honce : SetsReferencesOnce (prepared options clock r target top) actions)
  (hfinished : ∀ path ∈ (session options clock r target top actions).opened, path = target)
  (hactions : actions = before ++ a :: rest)

include hr honce in
theorem ne_empty_of_mem_references {p : String × String}
    (hp : p ∈ trace references (prepared options clock r target top) actions) :
    p.1 ≠ "" ∧ p.2 ≠ "" ∧ '/' ∉ p.2.toList := by
  obtain ⟨before, a, rest, -, hmem⟩ := mem_trace_iff.1 hp
  have hwithin : Path.isWithin p.1 Path.root = true :=
    isWithin_root_of_mem_opened hr before (mem_opened_of_mem_references hmem)
  refine ⟨?_, honce.named p hp⟩
  intro hempty
  rw [hempty] at hwithin
  exact absurd hwithin (by decide)

include hr hover hmerge hopens honce hfinished hactions in
/-- **What is known of a property that is set to references** in a session in which all nodes are
closed in the end. -/
theorem setting_session
    (hmem : (owner, name) ∈ (session options clock r target top before).references a) :
    Setting owner name (session options clock r target top before) a rest := by
  subst hactions
  have hreference : (owner, name) ∈
      trace references (prepared options clock r target top) (before ++ a :: rest) :=
    mem_trace_iff.2 ⟨before, a, rest, rfl, hmem⟩
  obtain ⟨howner, hname⟩ := ne_empty_of_mem_references hr honce hreference
  have hself := standsFor_join howner hname
  -- the property is set here, so it is set neither before nor afterwards
  have hcount := honce.once _ hreference
  rw [trace_append, foldl_prepared, trace, List.count_append, List.count_append] at hcount
  have hhere := List.count_pos_iff.2 (mem_declared_of_mem_references hmem)
  have hother : ∀ p ∈ trace references (prepared options clock r target top)
      (before ++ a :: rest),
      standsFor owner name (Path.join p.1 p.2) = true → p = (owner, name) := by
    intro p hp
    obtain ⟨hnode, hproper⟩ := ne_empty_of_mem_references hr honce hp
    exact eq_of_standsFor_join hnode hproper.2
  rw [trace_append, foldl_prepared, trace] at hother
  have hbefore : Spares owner name (prepared options clock r target top) before := by
    refine spares_of_references (fun b hb => hopens b (List.mem_append_left _ hb)) ?_
      fun p hp => hother p (List.mem_append_left _ hp)
    exact List.count_eq_zero.1 (by omega)
  have hrest :
      Spares owner name ((session options clock r target top before).after a) rest := by
    refine spares_of_references
      (fun b hb => hopens b (List.mem_append_right _ (List.mem_cons_of_mem _ hb))) ?_
      fun p hp => hother p (List.mem_append_right _ (List.mem_append_right _ hp))
    exact List.count_eq_zero.1 (by omega)
  have hsteady : IsSteady (prepared options clock r target top) := isSteady_prepared hover hmerge
  obtain ⟨hprogress, hquiet⟩ := isQuiet_run hself hsteady hbefore isQuiet_prepared
  have hsteady' := hprogress.isSteady hsteady
  have hopened := mem_opened_of_mem_references hmem
  refine ⟨hself, hsteady', hquiet, ?_, hsteady'.opened _ hopened,
    isWithin_root_of_mem_opened hr before hopened, hrest, ?_⟩
  · by_contra hsome
    have hreplaced : (owner, name) ∈
        trace replaced (prepared options clock r target top) (before ++ a :: rest) :=
      mem_trace_iff.2 ⟨before, a, rest, rfl,
        List.mem_filter.2 ⟨hmem, Option.isSome_iff_ne_none.2 hsome⟩⟩
    rw [honce.new] at hreplaced
    cases hreplaced
  · intro path hpath
    have hfinal : (session options clock r target top (before ++ a :: rest)).opened =
        (rest.foldl after ((session options clock r target top before).after a)).opened := by
      rw [session, List.foldl_append]
      rfl
    rw [hfinished path (hfinal ▸ hpath)]
    exact hprogress.hasNode (hasNode_target_of_opened hopened)

end Session

/-! ## Looking references up -/

/-- The paths of a list at which there is no node. -/
def missing (i : Import) (paths : List String) : List String :=
  paths.filter fun q => !i.repository.hasNode q

/-- What looking up a path returns: an identifier, or the path of the missing node. -/
def lookedUp (i : Import) (path : String) : Except String String :=
  match i.identifier? path with
  | some id => .ok id
  | none => .error path

theorem missing_singleton_of_some {path id : String} (h : i.identifier? path = some id) :
    i.missing [path] = [] := by
  simp [missing, ← isSome_identifier?, h]

theorem missing_singleton_of_none {path : String} (h : i.identifier? path = none) :
    i.missing [path] = [path] := by
  simp [missing, ← isSome_identifier?, h]

/-- A property waits for the node of a reference that is looked up, if the node is missing. -/
theorem exists_outcome_lookUp (hself : standsFor owner name (Path.join owner name) = true)
    (reference : String) (i : Import) :
    ∃ waiting, outcome (lookUp owner name reference) i =
        (.ok (i.lookedUp (Path.resolve owner reference)), { i with waiting := waiting }) ∧
      ∀ q, waits { i with waiting := waiting } owner name q = i.waits owner name q ++
        List.replicate ((i.missing [Path.resolve owner reference]).count q)
          (Path.join owner name) := by
  rw [lookUp, outcome_bind, outcome_get]
  dsimp only
  cases hn : i.repository.node? (Path.resolve owner reference) with
  | some n =>
    have hid : i.identifier? (Path.resolve owner reference) = some n.identifier := by
      rw [identifier?, hn, Option.map_some]
    refine ⟨i.waiting, ?_, fun q => ?_⟩
    · rw [lookedUp, hid]
      rfl
    · rw [missing_singleton_of_some hid, List.count_nil, List.replicate_zero, List.append_nil]
  | none =>
    have hid : i.identifier? (Path.resolve owner reference) = none := by
      rw [identifier?, hn, Option.map_none]
    refine ⟨i.waiting.insert (Path.resolve owner reference)
      ((i.waiting.get? (Path.resolve owner reference)).getD [] ++ [Path.join owner name]), ?_,
      fun q => ?_⟩
    · rw [lookedUp, hid]
      rfl
    · rw [missing_singleton_of_none hid, waits, waits, Table.get?_insert, List.count_singleton]
      split
      · next hq => simp [hq, hself]
      · next hq => simp [hq]

/-! ## What becomes of a property -/

theorem SameNodes.progress (h : SameNodes i j) : Progress [] i j :=
  .of_identifier h.options h.opened h.identifier fun _ hm => h.mentioned ▸ hm

/-- A property of an existing node is written. -/
theorem exists_outcome_write (name : String) (howner : i.repository.hasNode owner = true)
    (property : Property) :
    ∃ j, outcome (write owner name property) i = (.ok (), j) ∧ SameNodes i j ∧
      j.pending = i.pending ∧ j.repository.property? owner name = some property := by
  obtain ⟨n, hn⟩ := Repository.exists_node?_of_hasNode howner
  rw [outcome_write, hn]
  refine ⟨_, rfl, ⟨rfl, rfl, rfl, rfl, ?_⟩, rfl, ?_⟩
  · exact map_identifier_insert hn (n.properties.insert name property)
  · rw [Repository.property?, Repository.node?, Table.get?_insert, if_pos rfl, Option.bind_some,
      Table.get?_insert, if_pos rfl]

/-- What a property that is set to references comes to in the end. -/
theorem Setting.settled (h : Setting owner name i a rest) (hprogress : Progress [] i (i.after a))
    (hname : name ∈ (i.after a).mentioned) {w : Watch}
    (hw : IsWatched owner name (i.after a) w) :
    Progress (trace closed (i.after a) rest) i (rest.foldl after (i.after a)) ∧
      (rest.foldl after (i.after a)).repository.property? owner name =
        ((trace closed (i.after a) rest).foldl Watch.close w).view.property := by
  obtain ⟨hrun, hwatched⟩ := isWatched_run h.self (hprogress.isSteady h.steady) h.spared
    (hprogress.hasNode h.ownerNode) hname hw
  exact ⟨hprogress.trans hrun, congrArg View.property hwatched.view⟩

/-- The nodes there are in the end were there, or are closed later. -/
theorem Setting.hasNode_iff (h : Setting owner name i a rest)
    {closings : List (String × String)}
    (hprogress : Progress closings i (rest.foldl after (i.after a))) (path : String) :
    (rest.foldl after (i.after a)).repository.hasNode path = true ↔
      i.repository.hasNode path = true ∨ path ∈ closings.map Prod.fst := by
  constructor
  · intro hpath
    rcases hprogress.fresh path hpath with hpath | hpath | hpath
    · exact .inl hpath
    · exact .inl (h.finished path hpath)
    · exact .inr hpath
  · rintro (hpath | hpath)
    · exact hprogress.hasNode hpath
    · obtain ⟨c, hc, rfl⟩ := List.mem_map.1 hpath
      rw [← isSome_identifier?, hprogress.closed c hc]
      rfl

/-! ## Single references -/

theorem progress_mention (i : Import) (name : String) (waiting pending : Table (List String)) :
    Progress [] i
      { i with mentioned := including i.mentioned name, waiting := waiting, pending := pending } :=
  .of_identifier rfl rfl (fun _ => rfl) fun _ hm => mem_including_of_mem hm

/-- The watch of a property once it is set to a reference: it is written, or waits for the node. -/
def watchOf (i : Import) (path : String) : Watch :=
  match i.identifier? path with
  | some id => .written (.single (.reference id))
  | none => .awaiting path

/-- A property that is set to a reference is and waits as its watch says. -/
theorem Setting.isWatched_setProperty {text : String} {nodes : List String}
    (h : Setting owner name i (.call (.setProperty name .reference text)) rest)
    (hopened : i.opened = owner :: nodes) :
    Progress [] i (i.after (.call (.setProperty name .reference text))) ∧
      name ∈ (i.after (.call (.setProperty name .reference text))).mentioned ∧
      IsWatched owner name (i.after (.call (.setProperty name .reference text)))
        (i.watchOf (Path.resolve owner text)) := by
  obtain ⟨waiting, hlookUp, hwaits⟩ := exists_outcome_lookUp h.self text
    { i with mentioned := including i.mentioned name }
  have hmid : Progress [] i
      { i with mentioned := including i.mentioned name, waiting := waiting } :=
    progress_mention i name waiting i.pending
  have hmissing : ∀ q,
      waits { i with mentioned := including i.mentioned name, waiting := waiting } owner name q =
        List.replicate ((i.missing [Path.resolve owner text]).count q) (Path.join owner name) :=
    fun q => (hwaits q).trans (congrArg (· ++ _) (h.quiet.waits q))
  have hafter : i.after (.call (.setProperty name .reference text)) =
      (outcome (setProperty name .reference text) i).2 := rfl
  have hfound : lookedUp { i with mentioned := including i.mentioned name }
      (Path.resolve owner text) = i.lookedUp (Path.resolve owner text) := rfl
  rw [hafter, outcome_setProperty_of_new hopened h.new, assign, if_pos rfl, outcome_bind, hlookUp,
    hfound, lookedUp, watchOf]
  cases hid : i.identifier? (Path.resolve owner text) with
  | some id =>
    obtain ⟨j, hwrite, hsame, hpending, hproperty⟩ := exists_outcome_write name
      (hmid.hasNode h.ownerNode) (.single (.reference id))
    dsimp only
    rw [hwrite]
    refine ⟨hmid.trans hsame.progress, ?_, ?_, fun q => ?_⟩
    · rw [hsame.mentioned]
      exact mem_including_self i.mentioned name
    · rw [view, hproperty, hpending, h.quiet.pending]
      rfl
    · rw [waits, hsame.waiting]
      refine (hmissing q).trans ?_
      rw [missing_singleton_of_some hid]
      rfl
  | none =>
    refine ⟨hmid, mem_including_self i.mentioned name, ?_, fun q => (hmissing q).trans ?_⟩
    · exact congr (congrArg View.mk h.new) h.quiet.pending
    · rw [missing_singleton_of_none hid, List.count_singleton]
      simp [Watch.awaiting, @eq_comm _ q]

/-- What a property that is set to a reference comes to in the end. -/
theorem Setting.property?_setProperty {text : String} {nodes : List String}
    (h : Setting owner name i (.call (.setProperty name .reference text)) rest)
    (hopened : i.opened = owner :: nodes) {last : Import}
    (hlast : last = rest.foldl after (i.after (.call (.setProperty name .reference text)))) :
    last.repository.property? owner name =
      (last.identifier? (Path.resolve owner text)).map fun id => .single (.reference id) := by
  obtain ⟨hstep, hname, hwatched⟩ := h.isWatched_setProperty hopened
  obtain ⟨hprogress, hproperty⟩ := h.settled hstep hname hwatched
  have hnode := h.hasNode_iff hprogress (Path.resolve owner text)
  rw [← hlast] at hprogress hproperty hnode
  rw [hproperty, watchOf]
  cases hid : i.identifier? (Path.resolve owner text) with
  | some id =>
    rw [hprogress.identifier _ id hid]
    dsimp only
    rw [Watch.foldl_close_eq_self fun _ => rfl]
    rfl
  | none =>
    let ids : String → String := fun q => (last.identifier? q).getD ""
    have hids : ∀ c ∈ trace closed (i.after (.call (.setProperty name .reference text))) rest,
        c.2 = ids c.1 := by
      intro c hc
      simp [ids, hprogress.closed c hc]
    dsimp only
    rw [property_foldl_close_awaiting _ ids hids]
    rw [← isSome_identifier?, ← isSome_identifier?, hid] at hnode
    cases hfound : last.identifier? (Path.resolve owner text) with
    | some id =>
      rw [hfound] at hnode
      rw [if_pos ((hnode.1 rfl).resolve_left (by simp))]
      simp [ids, hfound]
    | none =>
      rw [hfound] at hnode
      rw [if_neg fun hclosed => absurd (hnode.2 (.inr hclosed)) (by simp)]
      rfl

/-- **A reference to a missing node ends up like one to a node that is there.** If nodes are opened
by name only, existing nodes are neither overwritten nor merged, and all nodes are closed in the
end, then a property that is set to a reference holds the identifier of the node that the reference
leads to in the end, and is absent if there is none, no matter when the node was added. -/
theorem property?_setReference (hr : r.Reachable) (hover : options.overwrite = false)
    (hmerge : options.merge = false) (hopens : ∀ a ∈ actions, a.OpensByName)
    (honce : SetsReferencesOnce (prepared options clock r target top) actions)
    (hfinished : ∀ path ∈ (session options clock r target top actions).opened, path = target)
    {text : String} {nodes : List String}
    (hactions : actions = before ++ .call (.setProperty name .reference text) :: rest)
    (hopened : (session options clock r target top before).opened = owner :: nodes) :
    (session options clock r target top actions).repository.property? owner name =
      ((session options clock r target top actions).repository.node?
        (Path.resolve owner text)).map fun n => .single (.reference n.identifier) := by
  have hmem : (owner, name) ∈ (session options clock r target top before).references
      (.call (.setProperty name .reference text)) := by
    simp [references, hopened]
  have hsetting := setting_session hr hover hmerge hopens honce hfinished hactions hmem
  have hlast : session options clock r target top actions =
      rest.foldl after ((session options clock r target top before).after
        (.call (.setProperty name .reference text))) := by
    rw [hactions, session, List.foldl_append]
    rfl
  rw [hsetting.property?_setProperty hopened hlast, identifier?, Option.map_map]
  rfl

/-- A node whose properties refer to a node that is added later, to one that is never added, to the
node itself, and to the added node once more. -/
def referring : List Action :=
  [ .call (.openNode (some "x") none []),
    .call (.setProperty "later" .reference "t"), .call (.setProperty "never" .reference "../u"),
    .call (.setProperty "self" .reference "/x"), .call (.openNode (some "t") none []),
    .call .closeNode, .call (.setProperty "again" .reference "t"), .call .closeNode ]

theorem setsReferencesOnce_referring :
    SetsReferencesOnce (prepared {} 0 (.new .standard) "/" none) referring :=
  ⟨by decide +kernel, by decide +kernel, by decide +kernel⟩

theorem property?_setReference_later :
    (session {} 0 (.new .standard) "/" none (referring.take 1)).opened = ["/x", "/"] ∧
      (session {} 0 (.new .standard) "/" none referring).opened = ["/"] ∧
      (session {} 0 (.new .standard) "/" none referring).repository.hasNode "/x/t" = true ∧
      (session {} 0 (.new .standard) "/" none referring).repository.property? "/x" "later" =
        ((session {} 0 (.new .standard) "/" none referring).repository.node?
          (Path.resolve "/x" "t")).map fun n => .single (.reference n.identifier) := by
  have hopened : (session {} 0 (.new .standard) "/" none (referring.take 1)).opened =
      ["/x", "/"] := by
    decide +kernel
  have hfinished : (session {} 0 (.new .standard) "/" none referring).opened = ["/"] := by
    decide +kernel
  refine ⟨hopened, hfinished, by decide +kernel, ?_⟩
  refine property?_setReference (.new .standard) rfl rfl ?_ setsReferencesOnce_referring ?_ rfl
    hopened
  · simp [referring, Action.OpensByName]
  · intro path hpath
    rw [hfinished] at hpath
    exact List.mem_singleton.1 hpath

end ContentImport.Import
