import ContentImport.Proofs.Repository.Binding
import ContentImport.Proofs.Repository.Operation

/-!
# Updating the entries of a principal

* `Refused` says why an update is refused: each reason presupposes that those before it do not
  hold. A refused update leaves the repository as it is, and any other one changes nothing but the
  list of its path (`Reachable.outcome_updateEntries_iff`).
* A list that changes by updates alone is arranged, whatever operations come between them
  (`arranged_run`).
-/

namespace ContentImport.Repository

open AccessList

variable {r r' : Repository} {path principal : String} {grants : List Grant}
  {order : Option String}

/-! ## Outcomes of an update -/

/-- The principal of an update is known, and its grants are registered and amount to entries. -/
structure Composed (r : Repository) (principal : String) (grants : List Grant) (p : Principal)
    (es : List Entry) : Prop where
  resolved : r.principal principal = .ok p
  composed : ∃ bound, grants.mapM (bind r.registry) = .ok bound ∧
    compose p bound r.registry.depths = .ok es

theorem updated_eq_ok_iff {acl acl' : AccessList} :
    r.updated acl principal grants order = .ok acl' ↔
      ∃ p es, Composed r principal grants p es ∧ acl.place p.name es order = .ok acl' := by
  simp only [updated, andThen_eq_ok_iff]
  constructor
  · rintro ⟨p, hp, bound, hbound, es, hes, h⟩
    exact ⟨p, es, ⟨hp, bound, hbound, hes⟩, h⟩
  · rintro ⟨p, es, ⟨hp, bound, hbound, hes⟩, h⟩
    exact ⟨p, hp, bound, hbound, es, hes, h⟩

theorem updated_eq_error_iff {acl : AccessList} {e : AccessError} :
    r.updated acl principal grants order = .error e ↔
      r.principal principal = .error e ∨
      (∃ p, r.principal principal = .ok p ∧ grants.mapM (bind r.registry) = .error e) ∨
      ∃ p es, Composed r principal grants p es ∧ acl.place p.name es order = .error e := by
  simp only [updated, andThen_eq_error_iff]
  constructor
  · rintro (hp | ⟨p, hp, hbound | ⟨bound, hbound, hes | ⟨es, hes, h⟩⟩⟩)
    · exact .inl hp
    · exact .inr (.inl ⟨p, hp, hbound⟩)
    · obtain ⟨es, hok⟩ := exists_compose hbound p r.registry.depths
      rw [hok] at hes
      cases hes
    · exact .inr (.inr ⟨p, es, ⟨hp, bound, hbound, hes⟩, h⟩)
  · rintro (hp | ⟨p, hp, hbound⟩ | ⟨p, es, ⟨hp, bound, hbound, hes⟩, h⟩)
    · exact .inl hp
    · exact .inr ⟨p, hp, .inl hbound⟩
    · exact .inr ⟨p, hp, .inr ⟨bound, hbound, .inr ⟨es, hes, h⟩⟩⟩

theorem principal_eq_error_iff {e : AccessError} :
    r.principal principal = .error e ↔ r.authorizables.get? principal = none ∧
      principal ≠ Authorizable.everyone ∧ e = .principalNotFound principal := by
  rw [Repository.principal]
  cases r.authorizables.get? principal with
  | some a => simp
  | none =>
    by_cases h : principal = Authorizable.everyone
    · simp [h]
    · simp [h, eq_comm]

theorem directive?_eq_error_iff {e : AccessError} :
    directive? order = .error e ↔ ∃ text, order = some text ∧ text ≠ "" ∧
      OrderDirective.parse? text = none ∧ e = .invalidOrder text := by
  cases order with
  | none => simp [directive?]
  | some text =>
    by_cases htext : text = ""
    · simp [directive?, htext]
    · cases hparse : OrderDirective.parse? text with
      | none => simp [directive?, htext, OrderDirective.parse, hparse, Except.map, eq_comm]
      | some d => simp [directive?, htext, OrderDirective.parse, hparse, Except.map]

/-- Why an update is refused. -/
inductive Refused (r : Repository) (path principal : String) (grants : List Grant)
    (order : Option String) : RepositoryError → Prop
  | node (hpath : r.hasNode path = false) :
      Refused r path principal grants order (.nodeNotFound path)
  | principal (hpath : r.hasNode path = true) (hnone : r.authorizables.get? principal = none)
      (hne : principal ≠ Authorizable.everyone) :
      Refused r path principal grants order (.access (.principalNotFound principal))
  | privilege (hpath : r.hasNode path = true) {p : Principal}
      (hp : r.principal principal = .ok p) {s t : List Grant} {g : Grant}
      (hgrants : grants = s ++ g :: t)
      (hs : ∀ c ∈ s, r.registry.privileges.contains c.name = true)
      (hg : r.registry.privileges.get? g.name = none) :
      Refused r path principal grants order (.access (.privilegeNotFound g.name))
  | order (hpath : r.hasNode path = true) {p : Principal} {es : List Entry}
      (hes : Composed r principal grants p es) {text : String} (horder : order = some text)
      (htext : text ≠ "") (hparse : OrderDirective.parse? text = none) :
      Refused r path principal grants order (.access (.invalidOrder text))
  | misplaced (hpath : r.hasNode path = true) {p : Principal} {es : List Entry}
      (hes : Composed r principal grants p es) {d : OrderDirective}
      (hd : directive? order = .ok (some d)) {e : AccessError}
      (h : Misplaced ((r.acl path).without principal ++ es) d e) :
      Refused r path principal grants order (.access e)

/-- The entries that an update puts into a list are entries of its principal. -/
theorem Composed.principalName_eq (hr : Reachable r) {p : Principal} {es : List Entry}
    (h : Composed r principal grants p es) : p.name = principal ∧
      ∀ e ∈ es, e.principalName = principal := by
  obtain ⟨bound, -, hes⟩ := h.composed
  have hname := hr.name_eq h.resolved
  refine ⟨hname, fun e he => ?_⟩
  rw [Entry.principalName, principal_of_mem_compose hes he, hname]

theorem Composed.place_eq_error_iff (hr : Reachable r) {p : Principal} {es : List Entry}
    (h : Composed r principal grants p es) {acl : AccessList} {e : AccessError} :
    acl.place p.name es order = .error e ↔
      (∃ text, order = some text ∧ text ≠ "" ∧ OrderDirective.parse? text = none ∧
        e = .invalidOrder text) ∨
      ∃ d, directive? order = .ok (some d) ∧ Misplaced (acl.without principal ++ es) d e := by
  obtain ⟨hname, hnew⟩ := h.principalName_eq hr
  rw [hname, AccessList.place_eq_error_iff hnew, directive?_eq_error_iff]

/-- An update is refused if its path is no node, or if its list cannot be made. -/
theorem Reachable.refused_iff (h : Reachable r) {e : RepositoryError} :
    Refused r path principal grants order e ↔
      (r.hasNode path = false ∧ e = .nodeNotFound path) ∨
      r.hasNode path = true ∧
        ∃ e', r.updated (r.acl path) principal grants order = .error e' ∧ e = .access e' := by
  simp only [updated_eq_error_iff, principal_eq_error_iff, mapM_bind_eq_error_iff]
  constructor
  · intro hrefused
    cases hrefused with
    | node hpath => exact .inl ⟨hpath, rfl⟩
    | principal hpath hnone hne =>
      exact .inr ⟨hpath, _, .inl ⟨hnone, hne, rfl⟩, rfl⟩
    | privilege hpath hp hgrants hs hg =>
      exact .inr ⟨hpath, _, .inr (.inl ⟨_, hp, _, _, _, hgrants, hs, hg, rfl⟩), rfl⟩
    | order hpath hes horder htext hparse =>
      refine .inr ⟨hpath, _, .inr (.inr ⟨_, _, hes, ?_⟩), rfl⟩
      exact (hes.place_eq_error_iff h).2 (.inl ⟨_, horder, htext, hparse, rfl⟩)
    | misplaced hpath hes hd hmis =>
      refine .inr ⟨hpath, _, .inr (.inr ⟨_, _, hes, ?_⟩), rfl⟩
      exact (hes.place_eq_error_iff h).2 (.inr ⟨_, hd, hmis⟩)
  · rintro (⟨hpath, rfl⟩ | ⟨hpath, e, hfail, rfl⟩)
    · exact .node hpath
    rcases hfail with ⟨hnone, hne, rfl⟩ | ⟨p, hp, s, g, t, hgrants, hs, hg, rfl⟩ |
      ⟨p, es, hes, hplace⟩
    · exact .principal hpath hnone hne
    · exact .privilege hpath hp hgrants hs hg
    · rcases (hes.place_eq_error_iff h).1 hplace with
        ⟨text, horder, htext, hparse, rfl⟩ | ⟨d, hd, hmis⟩
      · exact .order hpath hes horder htext hparse
      · exact .misplaced hpath hes hd hmis

theorem Reachable.updated_eq_ok_iff (h : Reachable r) {acl acl' : AccessList} :
    r.updated acl principal grants order = .ok acl' ↔
      ∃ p es, Composed r principal grants p es ∧ acl.place principal es order = .ok acl' := by
  rw [Repository.updated_eq_ok_iff]
  refine exists_congr fun p => exists_congr fun es => and_congr_right fun hes => ?_
  rw [(hes.principalName_eq h).1]

/-- **An update is done or refused as a whole.** It fails for the first of the reasons in
`Refused`, and then the repository is unchanged; otherwise nothing but the list of the path
changes, and there the composed entries are placed. -/
theorem Reachable.outcome_updateEntries_iff (h : Reachable r) (path principal : String)
    (grants : List Grant) (order : Option String) :
    (∀ e r', outcome (updateEntries path principal grants order) r = (.error e, r') ↔
      Refused r path principal grants order e ∧ r' = r) ∧
    ∀ r', outcome (updateEntries path principal grants order) r = (.ok (), r') ↔
      r.hasNode path = true ∧ ∃ p es acl, Composed r principal grants p es ∧
        (r.acl path).place principal es order = .ok acl ∧
        r' = { r with policies := r.policies.insert path acl } := by
  rw [outcome_updateEntries]
  refine ⟨fun e r' => ?_, fun r' => ?_⟩
  · rw [h.refused_iff]
    cases hpath : r.hasNode path with
    | false => simp [eq_comm]
    | true =>
      rcases hacl : r.updated (r.acl path) principal grants order with e' | acl
      · simp [eq_comm]
      · simp
  · have hdone : (∃ p es acl, Composed r principal grants p es ∧
        (r.acl path).place principal es order = .ok acl ∧
        r' = { r with policies := r.policies.insert path acl }) ↔
        ∃ acl, r.updated (r.acl path) principal grants order = .ok acl ∧
          r' = { r with policies := r.policies.insert path acl } := by
      simp only [h.updated_eq_ok_iff]
      constructor
      · rintro ⟨p, es, acl, hes, hplace, hr'⟩
        exact ⟨acl, ⟨p, es, hes, hplace⟩, hr'⟩
      · rintro ⟨acl, ⟨p, es, hes, hplace⟩, hr'⟩
        exact ⟨p, es, acl, hes, hplace, hr'⟩
    rw [hdone]
    cases hpath : r.hasNode path with
    | false => simp
    | true =>
      rcases hacl : r.updated (r.acl path) principal grants order with e' | acl
      · simp
      · simp [eq_comm]

/-- In a new repository, the directive points at a principal that the new entry does not mention. -/
theorem outcome_updateEntries_new : Reachable (new Registry.standard) ∧
    outcome (updateEntries "/" "everyone" [{ name := "jcr:read", allow := some .empty }]
      (some "before nobody")) (new Registry.standard) =
        (.error (.access (.orderTargetNotFound "nobody")), new Registry.standard) := by
  have hnew : Reachable (new Registry.standard) := .new .standard
  refine ⟨hnew, ((hnew.outcome_updateEntries_iff _ _ _ _).1 _ _).2 ⟨?_, rfl⟩⟩
  refine .misplaced (d := .before "nobody") rfl ⟨rfl, _, rfl, rfl⟩ (by decide) (.before ?_)
  decide

/-! ## Runs of updates -/

/-- An operation leaves the list of a path to updates with grants from a builder. -/
def Operation.LeavesToUpdates (path : String) : Operation → Prop
  | setAcl path' _ => path' ≠ path
  | updateEntries path' _ grants _ => path' = path → ∃ gs : Grants, gs.Built ∧ grants = gs.values
  | _ => True

/-- The repository that operations leave one after the other, whether they fail or not. -/
def run (ops : List Operation) (r : Repository) : Repository := ops.foldl (fun r op => op.after r) r

/-- An update with grants from a builder keeps a list arranged. -/
theorem arranged_of_updated (hr : r.registry.IsBuilt) {acl acl' : AccessList}
    (h : Arranged r.registry acl) {gs : Grants} (hgs : gs.Built)
    (hacl : r.updated acl principal gs.values order = .ok acl') : Arranged r.registry acl' := by
  obtain ⟨p, es, hes, hplace⟩ := updated_eq_ok_iff.1 hacl
  obtain ⟨bound, hbound, hcompose⟩ := hes.composed
  have hnew : ∀ e ∈ es, e.principalName = p.name := by
    intro e he
    rw [Entry.principalName, principal_of_mem_compose hcompose he]
  obtain ⟨d, -, hd⟩ := exists_placedAt_of_place hnew hplace
  exact h.of_placedAt hnew (block_compose hr hgs hbound hcompose) hd

theorem arranged_filter {registry : Registry} {policies : Table AccessList}
    (h : Arranged registry ((policies.get? path).getD [])) (keep : String → AccessList → Bool) :
    Arranged registry (((policies.filter keep).get? path).getD []) := by
  rw [Table.get?_filter]
  cases hacl : policies.get? path with
  | none => exact arranged_nil
  | some acl =>
    rw [hacl] at h
    rw [Option.filter_some]
    split
    · exact h
    · exact arranged_nil

/-- Every operation that leaves a list to updates keeps it arranged. -/
theorem arranged_after (hr : r.registry.IsBuilt) (h : Arranged r.registry (r.acl path))
    {op : Operation} (hop : op.LeavesToUpdates path) :
    Arranged r.registry ((op.after r).acl path) := by
  have hstep := op.step r
  generalize op.after r = r' at hstep ⊢
  cases hstep with
  | removeNode => exact arranged_filter h _
  | removeOrphan => exact arranged_filter h _
  | setAcl _ acl =>
    rwa [Repository.acl, Table.get?_insert, if_neg hop]
  | @updateEntries path' _ grants _ acl _ hacl =>
    rw [Repository.acl, Table.get?_insert]
    split
    · next hpath =>
      subst hpath
      obtain ⟨gs, hgs, rfl⟩ := hop rfl
      exact arranged_of_updated hr h hgs hacl
    · exact h
  | _ => exact h

theorem arranged_run_of_arranged (hr : r.registry.IsBuilt) {ops : List Operation}
    (hops : ∀ op ∈ ops, op.LeavesToUpdates path) (h : Arranged r.registry (r.acl path)) :
    Arranged r.registry ((run ops r).acl path) := by
  induction ops generalizing r with
  | nil => exact h
  | cons op ops ih =>
    obtain ⟨hop, hops⟩ := List.forall_mem_cons.1 hops
    have hregistry : (op.after r).registry = r.registry := (op.step r).registry_eq
    have hafter := arranged_after hr h hop
    rw [← hregistry] at hr hafter ⊢
    exact ih hr hops hafter

/-- **A list that is only ever updated is arranged.** From a path without a stored list, whatever
operations follow and whether they fail or not, the entries of each principal stay together, as a
block. -/
theorem arranged_run (hr : r.registry.IsBuilt) (hnone : r.policies.get? path = none)
    {ops : List Operation} (hops : ∀ op ∈ ops, op.LeavesToUpdates path) :
    Arranged r.registry ((run ops r).acl path) := by
  have hacl : r.acl path = [] := by rw [acl, hnone]; rfl
  exact arranged_run_of_arranged hr hops (hacl ▸ arranged_nil)

/-- Updates of the root: the second one puts a group before everyone, the third one fails. -/
def rootUpdates : List Operation :=
  let grants (name : String) : Grants := Grants.allow Table.empty name .empty
  [ .createGroup "staff",
    .updateEntries "/" "everyone" (grants "jcr:read").values none,
    .updateEntries "/" "staff" ((grants "jcr:write").deny "jcr:removeNode" .empty).values
      (some "before everyone"),
    .updateEntries "/" "staff" (grants "jcr:read").values (some "after nobody") ]

theorem arranged_run_rootUpdates :
    ((run rootUpdates (new Registry.standard)).acl "/").map Entry.principalName =
        ["staff", "staff", "everyone"] ∧
      Arranged Registry.standard ((run rootUpdates (new Registry.standard)).acl "/") := by
  refine ⟨?_, arranged_run (r := new Registry.standard) .standard rfl ?_⟩
  · decide +kernel
  · simp only [rootUpdates, List.forall_mem_cons]
    refine ⟨trivial, fun _ => ⟨_, .allow .empty .., rfl⟩,
      fun _ => ⟨_, .deny (.allow .empty ..) .., rfl⟩, fun _ => ⟨_, .allow .empty .., rfl⟩, ?_⟩
    simp

end ContentImport.Repository
