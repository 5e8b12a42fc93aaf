import ContentImport.Proofs.Import.Reference

/-!
# Lists of references

A list of references is written with the nodes that are there, and completed as missing nodes are
closed. If nodes are opened by name only, and existing nodes are neither overwritten nor merged, it
holds in the end the identifiers of all its nodes in order (`property?_setReferences`), with one
exception: if the missing node that is closed last stands in the list more than once, a single
reference to it takes the place of the list (`references_not_kept`).
-/

namespace ContentImport.Import

variable {options : ImportOptions} {clock : Int} {r : Repository} {target owner name : String}
  {top : Option String} {i j : Import} {a : Action} {actions before rest : List Action}

/-! ## Stand-ins -/

theorem startsWith_identifier (serial : Nat) :
    Text.startsWith "/" (Repository.identifier serial) = false := by
  have hlead : ("8d1f3c60-5b7e-4c2a-9e04-").toList = '8' :: ("d1f3c60-5b7e-4c2a-9e04-").toList := by
    decide +kernel
  have hform : ∀ s, Text.startsWith "/" ("8d1f3c60-5b7e-4c2a-9e04-" ++ s) = false := by
    intro s
    rw [Text.startsWith, String.toList_append, hlead, List.cons_append]
    generalize ("d1f3c60-5b7e-4c2a-9e04-").toList ++ s.toList = t
    rfl
  exact hform _

/-- An identifier is no path. -/
theorem startsWith_of_identifier? (hr : i.repository.Reachable) {path id : String}
    (hid : i.identifier? path = some id) : Text.startsWith "/" id = false := by
  obtain ⟨n, hn, rfl⟩ := Option.map_eq_some_iff.1 hid
  obtain ⟨serial, hserial⟩ := hr.exists_identifier_eq path n hn
  rw [hserial]
  exact startsWith_identifier serial

/-- The identifiers of the targets that are not left. -/
theorem filterMap_identifier? {targets left : List String} {ids : String → String}
    (hleft : ∀ q ∈ targets, q ∈ left ↔ i.identifier? q = none)
    (hids : ∀ q id, i.identifier? q = some id → ids q = id) :
    targets.filterMap i.identifier? = (targets.filter (· ∉ left)).map ids := by
  induction targets with
  | nil => rfl
  | cons q targets ih =>
    have hrest := ih fun p hp => hleft p (List.mem_cons_of_mem _ hp)
    have hq := hleft q List.mem_cons_self
    cases hid : i.identifier? q with
    | some id =>
      have hmem : q ∉ left := by simp [hq, hid]
      rw [List.filterMap_cons_some hid, List.filter_cons_of_pos (by simpa using hmem),
        List.map_cons, hids q id hid, hrest]
    | none =>
      have hmem : q ∈ left := hq.2 hid
      rw [List.filterMap_cons_none hid, List.filter_cons_of_neg (by simpa using hmem), hrest]

theorem mem_missing_iff {targets : List String} {q : String} (hq : q ∈ targets) :
    q ∈ i.missing targets ↔ i.identifier? q = none := by
  rw [missing, List.mem_filter, ← isSome_identifier?]
  simp [hq]

/-! ## Setting a list -/

/-- The property that a list of references comes to, given the nodes in the end, the targets that
were missing when the list was set, and the nodes that were closed since. -/
def listed (last : Import) (targets missing closings : List String) : Option Property :=
  match (lastPassed missing closings).filter (1 < targets.count ·) with
  | some q => (last.identifier? q).map fun id => .single (.reference id)
  | none => some (.multiple .reference ((targets.filterMap last.identifier?).map .reference))

/-- A property waits for the missing nodes of references that are looked up. -/
theorem exists_outcome_lookUpAll (hself : standsFor owner name (Path.join owner name) = true)
    (texts : List String) (i : Import) :
    ∃ waiting, outcome (lookUpAll owner name texts) i =
        (.ok ((texts.map (Path.resolve owner)).map i.lookedUp), { i with waiting := waiting }) ∧
      ∀ q, waits { i with waiting := waiting } owner name q = i.waits owner name q ++
        List.replicate ((i.missing (texts.map (Path.resolve owner))).count q)
          (Path.join owner name) := by
  induction texts generalizing i with
  | nil => exact ⟨i.waiting, rfl, fun q => (List.append_nil _).symm⟩
  | cons text texts ih =>
    obtain ⟨waiting, hlookUp, hwaits⟩ := exists_outcome_lookUp hself text i
    obtain ⟨waiting', hrest, hwaits'⟩ := ih { i with waiting := waiting }
    refine ⟨waiting', ?_, fun q => ?_⟩
    · rw [lookUpAll, outcome_bind, hlookUp]
      dsimp only
      rw [outcome_bind, hrest]
      rfl
    · have hmissing : i.missing ((text :: texts).map (Path.resolve owner)) =
          i.missing [Path.resolve owner text] ++ i.missing (texts.map (Path.resolve owner)) := by
        rw [List.map_cons, ← List.singleton_append, missing, List.filter_append]
        rfl
      rw [hmissing, List.count_append, ← List.replicate_append_replicate, ← List.append_assoc,
        ← hwaits q]
      exact hwaits' q

theorem filterMap_lookedUp (targets : List String) (i : Import) :
    (targets.map i.lookedUp).filterMap Except.toOption = targets.filterMap i.identifier? := by
  rw [List.filterMap_map]
  refine List.filterMap_congr fun q _ => ?_
  rw [Function.comp_apply, lookedUp]
  cases i.identifier? q <;> rfl

theorem map_standIn_lookedUp {targets : List String} {ids : String → String}
    (hids : ∀ q id, i.identifier? q = some id → ids q = id) :
    (targets.map i.lookedUp).map standIn = standIns targets ids (i.missing targets) := by
  rw [List.map_map, standIns]
  refine List.map_congr_left fun q hq => ?_
  rw [Function.comp_apply, lookedUp]
  cases hid : i.identifier? q with
  | some id =>
    rw [if_neg (by simp [mem_missing_iff hq, hid]), hids q id hid]
    rfl
  | none =>
    rw [if_pos ((mem_missing_iff hq).2 hid)]
    rfl

theorem count_missing (targets : List String) (i : Import) (q : String) :
    (i.missing targets).count q = if q ∈ i.missing targets then targets.count q else 0 := by
  split
  · next hq => exact List.count_filter (List.mem_filter.1 hq).2
  · next hq => exact List.count_eq_zero.2 hq

section Setting

variable {texts nodes : List String} {ids : String → String}
  (h : Setting owner name i (.call (.setProperties name .reference texts)) rest)

include h

theorem Setting.startsWith_resolve :
    ∀ q ∈ texts.map (Path.resolve owner), Text.startsWith "/" q = true := by
  intro q hq
  obtain ⟨text, -, rfl⟩ := List.mem_map.1 hq
  have hwithin := Path.isWithin_resolve h.ownerWithin text
  rwa [Path.isWithin, if_pos rfl] at hwithin

/-- What setting a list of references comes to: it is written with the nodes that are there, and if
others are missing, it waits for them with stand-ins. -/
theorem Setting.exists_outcome_setProperties (hopened : i.opened = owner :: nodes)
    (hids : ∀ q id, i.identifier? q = some id → ids q = id) :
    ∃ waiting pending,
      outcome (setProperties name .reference texts) i =
        outcome (write owner name (.multiple .reference
          (((texts.map (Path.resolve owner)).filterMap i.identifier?).map .reference)))
          { i with
            mentioned := including i.mentioned name, waiting := waiting, pending := pending } ∧
      (∀ q, waits { i with waiting := waiting } owner name q =
        List.replicate ((i.missing (texts.map (Path.resolve owner))).count q)
          (Path.join owner name)) ∧
      pending.get? (Path.join owner name) =
        if ((texts.map (Path.resolve owner)).filterMap i.identifier?).length < texts.length then
          some (standIns (texts.map (Path.resolve owner)) ids
            (i.missing (texts.map (Path.resolve owner))))
        else none := by
  obtain ⟨waiting, hlookUp, hwaits⟩ := exists_outcome_lookUpAll h.self texts
    { i with mentioned := including i.mentioned name }
  have hwaits : ∀ q, waits { i with waiting := waiting } owner name q =
      List.replicate ((i.missing (texts.map (Path.resolve owner))).count q)
        (Path.join owner name) :=
    fun q => (hwaits q).trans (congrArg (· ++ _) (h.quiet.waits q))
  let results := (texts.map (Path.resolve owner)).map
    (lookedUp { i with mentioned := including i.mentioned name })
  have hstandIns : results.map standIn = standIns (texts.map (Path.resolve owner)) ids
      (i.missing (texts.map (Path.resolve owner))) := map_standIn_lookedUp hids
  have hresults : results.filterMap Except.toOption =
      (texts.map (Path.resolve owner)).filterMap i.identifier? := filterMap_lookedUp _ i
  rw [outcome_setProperties_of_new hopened h.new, assignAll, if_pos rfl, outcome_bind, hlookUp]
  dsimp only
  rw [hstandIns, hresults]
  split
  · exact ⟨waiting, _, rfl, hwaits, (Table.get?_insert ..).trans (if_pos rfl)⟩
  · exact ⟨waiting, i.pending, rfl, hwaits, h.quiet.pending⟩

/-- A list of references that is set is and waits as its watch says. -/
theorem Setting.isWatched_setProperties (hopened : i.opened = owner :: nodes)
    (hids : ∀ q id, i.identifier? q = some id → ids q = id)
    (hslash : ∀ q ∈ texts.map (Path.resolve owner), Text.startsWith "/" (ids q) = false) :
    Progress [] i (i.after (.call (.setProperties name .reference texts))) ∧
      name ∈ (i.after (.call (.setProperties name .reference texts))).mentioned ∧
      IsWatched owner name (i.after (.call (.setProperties name .reference texts)))
        (.settling (texts.map (Path.resolve owner)) ids
          (i.missing (texts.map (Path.resolve owner)))) := by
  obtain ⟨waiting, pending, hset, hwaits, hheld⟩ := h.exists_outcome_setProperties hopened hids
  have htargets := h.startsWith_resolve
  set targets := texts.map (Path.resolve owner) with htexts
  have hidentifiers : identifiers (standIns targets ids (i.missing targets)) =
      targets.filterMap i.identifier? := by
    rw [identifiers_standIns htargets hslash,
      filterMap_identifier? (fun q hq => mem_missing_iff hq) hids]
  have hmid := progress_mention i name waiting pending
  obtain ⟨j, hwrite, hsame, hpending, hproperty⟩ := exists_outcome_write name
    (hmid.hasNode h.ownerNode)
    (.multiple .reference ((targets.filterMap i.identifier?).map .reference))
  have hafter : i.after (.call (.setProperties name .reference texts)) = j :=
    congrArg Prod.snd (hset.trans hwrite)
  rw [hafter]
  refine ⟨hmid.trans hsame.progress, ?_, ?_, fun q => ?_⟩
  · rw [hsame.mentioned]
    exact mem_including_self i.mentioned name
  · have hlength : (standIns targets ids (i.missing targets)).length = texts.length := by
      simp [standIns, htexts]
    have hle : (targets.filterMap i.identifier?).length ≤ texts.length := by
      rw [← hlength, standIns, List.length_map]
      exact List.length_filterMap_le ..
    rw [view, hproperty, hpending, hheld, Watch.settling, View.ofStandIns, hidentifiers, hlength]
    refine congrArg (View.mk _) ?_
    by_cases hlt : (targets.filterMap i.identifier?).length < texts.length
    · rw [if_pos hlt, if_neg (by omega)]
    · rw [if_neg hlt, if_pos (by omega)]
  · rw [waits, hsame.waiting]
    exact (hwaits q).trans (congrArg (List.replicate · _) (count_missing targets i q))

/-- What a property that is set to a list of references comes to in the end. -/
theorem Setting.property?_setProperties (hopened : i.opened = owner :: nodes)
    (hi : i.repository.Reachable) {last : Import} (hr : last.repository.Reachable)
    (hlast : last = rest.foldl after (i.after (.call (.setProperties name .reference texts)))) :
    last.repository.property? owner name =
      listed last (texts.map (Path.resolve owner)) (i.missing (texts.map (Path.resolve owner)))
        ((trace closed (i.after (.call (.setProperties name .reference texts))) rest).map
          Prod.fst) := by
  -- identifiers are kept, but that is only known once the list is known to wait as it should
  let ids : String → String := fun q => ((i.identifier? q).or (last.identifier? q)).getD ""
  have hslash : ∀ q ∈ texts.map (Path.resolve owner), Text.startsWith "/" (ids q) = false := by
    intro q _
    dsimp only [ids]
    cases hid : i.identifier? q with
    | some id => exact startsWith_of_identifier? hi hid
    | none =>
      cases hid' : last.identifier? q with
      | some id => exact startsWith_of_identifier? hr hid'
      | none => decide
  obtain ⟨hstep, hname, hwatched⟩ := h.isWatched_setProperties hopened
    (fun q id hid => by simp [ids, hid]) hslash
  obtain ⟨hprogress, hproperty⟩ := h.settled hstep hname hwatched
  have hnode := h.hasNode_iff hprogress
  rw [← hlast] at hprogress hproperty hnode
  have hids : ∀ q id, last.identifier? q = some id → ids q = id := by
    intro q id hid
    cases hfound : i.identifier? q with
    | some id' =>
      rw [hprogress.identifier q id' hfound] at hid
      simpa [ids, hfound] using hid
    | none => simp [ids, hfound, hid]
  set closings := trace closed (i.after (.call (.setProperties name .reference texts))) rest
  set targets := texts.map (Path.resolve owner)
  have hclosings : ∀ c ∈ closings, c.2 = ids c.1 := fun c hc =>
    (hids _ _ (hprogress.closed c hc)).symm
  have hleft : ∀ q ∈ targets, q ∈ (i.missing targets).filter (· ∉ closings.map Prod.fst) ↔
      last.identifier? q = none := by
    intro q hq
    have hfound := hnode q
    rw [← isSome_identifier?, ← isSome_identifier?] at hfound
    rw [List.mem_filter, mem_missing_iff hq, ← Option.not_isSome_iff_eq_none,
      ← Option.not_isSome_iff_eq_none, hfound]
    simp
  have hmissing : ∀ q ∈ i.missing targets, q ∈ targets := fun q hq => (List.mem_filter.1 hq).1
  rw [hproperty,
    property_foldl_close_settling h.startsWith_resolve hslash hclosings hmissing, listed]
  cases hpassed : (lastPassed (i.missing targets) (closings.map Prod.fst)).filter
      (1 < targets.count ·) with
  | some q =>
    have hmem := mem_of_lastPassed (Option.filter_eq_some_iff.1 hpassed).1
    obtain ⟨c, hc, rfl⟩ := List.mem_map.1 hmem
    dsimp only
    rw [hprogress.closed c hc, ← hclosings c hc]
    rfl
  | none =>
    dsimp only
    rw [resolved, filterMap_identifier? hleft hids, List.map_map]
    rfl

end Setting

/-- **A list of references holds the identifiers of its nodes in the end,** in order and as often as
it leads to them, no matter when the nodes were added; only if the missing node that is closed last
stands in it more than once, a single reference to that node takes the place of the list. That is so
if nodes are opened by name only, existing nodes are neither overwritten nor merged, and all nodes
are closed in the end. -/
theorem property?_setReferences (hr : r.Reachable) (hover : options.overwrite = false)
    (hmerge : options.merge = false) (hopens : ∀ a ∈ actions, a.OpensByName)
    (honce : SetsReferencesOnce (prepared options clock r target top) actions)
    (hfinished : ∀ path ∈ (session options clock r target top actions).opened, path = target)
    {texts nodes : List String}
    (hactions : actions = before ++ .call (.setProperties name .reference texts) :: rest)
    (hopened : (session options clock r target top before).opened = owner :: nodes) :
    (session options clock r target top actions).repository.property? owner name =
      listed (session options clock r target top actions) (texts.map (Path.resolve owner))
        ((session options clock r target top before).missing (texts.map (Path.resolve owner)))
        ((trace closed ((session options clock r target top before).after
          (.call (.setProperties name .reference texts))) rest).map Prod.fst) := by
  have hmem : (owner, name) ∈ (session options clock r target top before).references
      (.call (.setProperties name .reference texts)) := by
    simp [references, hopened]
  have hsetting := setting_session hr hover hmerge hopens honce hfinished hactions hmem
  have hreachable : ∀ l, (session options clock r target top l).repository.Reachable := fun l =>
    (isContained_session options clock r target top l).repository.reachable hr
  refine hsetting.property?_setProperties hopened (hreachable before) (hreachable actions) ?_
  rw [hactions, session, List.foldl_append]
  rfl

/-- A node with a list of references, and children that are added afterwards. -/
def listing (texts children : List String) : List Action :=
  [.call (.openNode (some "x") none []), .call (.setProperties "refs" .reference texts)] ++
    children.flatMap (fun child => [.call (.openNode (some child) none []), .call .closeNode]) ++
    [.call .closeNode]

/-- What is left of a new repository into which such a node is imported. -/
def listingSession (texts children : List String) : Import :=
  session {} 0 (.new .standard) "/" none (listing texts children)

theorem property?_setReferences_listing :
    (session {} 0 (.new .standard) "/" none [.call (.openNode (some "x") none [])]).opened =
        ["/x", "/"] ∧
      (listingSession ["t", "u", "t"] ["t", "u"]).opened = ["/"] ∧
      (listingSession ["t", "u", "t"] ["t", "u"]).repository.property? "/x" "refs" =
        listed (listingSession ["t", "u", "t"] ["t", "u"]) ["/x/t", "/x/u", "/x/t"]
          ["/x/t", "/x/u", "/x/t"] ["/x/t", "/x/u", "/x"] := by
  have hopened : (session {} 0 (.new .standard) "/" none
      [.call (.openNode (some "x") none [])]).opened = ["/x", "/"] := by
    decide +kernel
  have hfinished : (listingSession ["t", "u", "t"] ["t", "u"]).opened = ["/"] := by
    decide +kernel
  have honce : SetsReferencesOnce (prepared {} 0 (.new .standard) "/" none)
      (listing ["t", "u", "t"] ["t", "u"]) :=
    ⟨by decide +kernel, by decide +kernel, by decide +kernel⟩
  refine ⟨hopened, hfinished, ?_⟩
  refine (property?_setReferences (.new .standard) rfl rfl ?_ honce ?_ rfl hopened).trans ?_
  · simp [listing, Action.OpensByName]
  · intro path hpath
    have hpath : path ∈ (listingSession ["t", "u", "t"] ["t", "u"]).opened := hpath
    rw [hfinished] at hpath
    exact List.mem_singleton.1 hpath
  · decide +kernel

/-- An action opens a node by name, closes the current one, or sets a property of it. -/
def Action.IsPlain : Action → Prop
  | .call (.openNode _ _ _) | .call .closeNode | .call (.setProperty _ _ _)
  | .call (.setProperties _ _ _) => True
  | _ => False

/-- **A list of references is not always kept.** Both references of a list lead to a node that is
added afterwards; when that node is closed, the property is written twice, and the second time
there is no list any more to complete. -/
theorem references_not_kept :
    ¬ ∀ (options : ImportOptions) (clock : Int) (r : Repository) (target owner name : String)
      (top : Option String) (actions before rest : List Action) (texts nodes : List String),
      r.Reachable → options.overwrite = false → options.merge = false →
      (∀ a ∈ actions, a.IsPlain) →
      SetsReferencesOnce (prepared options clock r target top) actions →
      (session options clock r target top actions).opened = [target] →
      actions = before ++ .call (.setProperties name .reference texts) :: rest →
      (session options clock r target top before).opened = owner :: nodes →
      (∀ text ∈ texts, (session options clock r target top actions).repository.hasNode
        (Path.resolve owner text) = true) →
      (session options clock r target top actions).repository.property? owner name =
        some (.multiple .reference ((texts.filterMap fun text =>
          (session options clock r target top actions).identifier? (Path.resolve owner text)).map
            .reference)) := by
  intro hkept
  have hproperty := hkept {} 0 (.new .standard) "/" "/x" "refs" none (listing ["t", "t"] ["t"])
    [.call (.openNode (some "x") none [])] _ ["t", "t"] ["/"] (.new .standard) rfl rfl
    (by simp [listing, Action.IsPlain]) ⟨by decide +kernel, by decide +kernel, by decide +kernel⟩
    (by decide +kernel) rfl (by decide +kernel) (by decide +kernel)
  have hsingle : ((listingSession ["t", "t"] ["t"]).repository.property? "/x" "refs").bind
      Property.value? ≠ none := by
    decide +kernel
  refine hsingle ?_
  rw [listingSession, hproperty]
  rfl

end ContentImport.Import
