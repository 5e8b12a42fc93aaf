import ContentImport.Proofs.Import.Session

/-!
# The kinds of principals

An identifier is known as a user or as a group from the first time on that one is created under it,
by an operation or by a call of a document (`Repository.kind?_after`, `Import.kinds_perform`). So
its kind after any history of operations and documents is that of the first creation
(`Repository.History.kind?_after`).

That holds of the group of everyone too. It need not be created to be known, but nothing reserves
its name for it: what is created under that name takes its place, as a group or as a user
(`History.principal_everyone`, `everyone_taken`).
-/

namespace ContentImport

/-! ## Operations -/

namespace Repository

variable {r r' : Repository} {op : Operation} {a : Authorizable} {id id' : String}

/-- The kind of the authorizable with an identifier. -/
def kind? (r : Repository) (id : String) : Option PrincipalKind :=
  (r.authorizables.get? id).map Authorizable.kind

/-- What an operation creates unless it is there, by identifier and kind. -/
def Operation.creations : Operation → List (String × PrincipalKind)
  | createUser id _ => [(id, .user)]
  | createGroup id => [(id, .group)]
  | _ => []

/-- The kinds that are known once something was created unless it was there. -/
def kindsWith (r : Repository) (creations : List (String × PrincipalKind)) (id : String) :
    Option PrincipalKind :=
  (r.kind? id).or (Table.lookup id creations)

theorem kindsWith_nil (r : Repository) (id : String) : r.kindsWith [] id = r.kind? id :=
  Option.or_none

theorem kindsWith_append {creations : List (String × PrincipalKind)}
    (h : ∀ id, r'.kind? id = r.kindsWith creations id) (more : List (String × PrincipalKind))
    (id : String) : r'.kindsWith more id = r.kindsWith (creations ++ more) id := by
  rw [kindsWith, h, kindsWith, kindsWith, Table.lookup_append, Option.or_assoc]

theorem kind?_of_created (hid : r.authorizables.get? id' = none) :
    kind? { r with authorizables := r.authorizables.insert id' a } id =
      r.kindsWith [(id', a.kind)] id := by
  rw [kind?, Table.get?_insert, kindsWith, kind?, Table.lookup]
  split
  · next heq => rw [← heq, hid]; rfl
  · exact (Option.or_none).symm

theorem kind?_of_known (ha : r.authorizables.get? id' = some a) (kind : PrincipalKind) :
    r.kind? id = r.kindsWith [(id', kind)] id := by
  rw [kindsWith, kind?, Table.lookup]
  split
  · next heq => rw [← heq, ha]; rfl
  · exact (Option.or_none).symm

theorem Step.kind?_eq (h : Step r op r') (hop : op.creations = []) (id : String) :
    r'.kind? id = r.kind? id := by
  cases h with
  | createUser | createGroup => cases hop
  | addMember _ hold | setAuthorizableProperty hold =>
    rw [kind?, Table.get?_insert, kind?]
    split
    · next heq => rw [← heq, hold]; rfl
    · rfl
  | _ => rfl

/-- **A kind is that of the first creation.** -/
theorem kind?_after (op : Operation) (r : Repository) (id : String) :
    (op.after r).kind? id = r.kindsWith op.creations id := by
  cases op with
  | createUser id' password =>
    rw [Operation.after, Operation.change, snd_outcome_map, outcome_createUser]
    split
    · next a ha => split <;> exact kind?_of_known ha .user
    · next hid => exact kind?_of_created hid
  | createGroup id' =>
    rw [Operation.after, Operation.change, snd_outcome_map, outcome_createGroup]
    split
    · next a ha => split <;> exact kind?_of_known ha .group
    · next hid => exact kind?_of_created hid
  | _ => exact ((Operation.step r _).kind?_eq rfl id).trans (kindsWith_nil r id).symm

end Repository

/-! ## Calls -/

/-- What a call creates unless it is there, by identifier and kind. -/
def Call.creations : Call → List (String × PrincipalKind)
  | .createUser name _ _ => [(name, .user)]
  | .createGroup name _ _ => [(name, .group)]
  | _ => []

namespace Import

variable {kinds : String → Option PrincipalKind} {i : Import}

/-- Identifiers are known with these kinds. -/
def HasKinds (kinds : String → Option PrincipalKind) (i : Import) : Prop :=
  ∀ id, i.repository.kind? id = kinds id

theorem isKeptUnder_kinds : IsKeptUnder (fun op => op.creations = []) (HasKinds kinds) where
  operation := fun op hop i hi id => ((op.step i.repository).kind?_eq hop id).trans (hi id)
  notes := fun _ _ _ _ hi => hi

theorem kinds_perform_of_nil {c : Call} (hc : c.creations = []) :
    Keeps (HasKinds kinds) (perform c) := by
  have hcreate : ∀ parent name type, Keeps (HasKinds kinds) (create parent name type) :=
    fun parent name type => (isKeptUnder_kinds.discard (.addNode parent name type) rfl rfl).bind
      fun _ _ => .modify fun _ hi => hi
  have hwrite : ∀ node name property, Keeps (HasKinds kinds) (write node name property) :=
    fun node name property => (isKeptUnder_kinds.onRepository (.setProperty node name property) rfl
      fun _ => rfl).bind fun _ _ => .modify fun _ hi => hi
  refine isKeptUnder_kinds.perform (fun _ _ _ _ hi => hi) (fun _ _ _ hi => hi) hcreate hwrite
    (fun _ _ _ => rfl) (fun _ _ => rfl) (fun _ _ _ _ => rfl) (fun _ _ _ _ => rfl)
    (fun _ _ _ _ _ => rfl) ?_ ?_
  · rintro id password extra rfl
    cases hc
  · rintro id members extra rfl
    cases hc

/-- An operation that a call comes down to. -/
theorem kinds_operation {α : Type} {change : Repository.Change α} (op : Repository.Operation)
    (hchange : op.change = (fun _ => ()) <$> change) (i : Import) :
    HasKinds (i.repository.kindsWith op.creations)
      (outcome (Functor.discard (onRepository change)) i).2 := by
  refine Keeps.after_bind (fun id => ?_) fun _ => .pure trivial
  rw [onRepository, snd_outcome_onRepositoryWith, ← Repository.kind?_after,
    Repository.Operation.after, hchange, snd_outcome_map]

/-- **A call creates what it asks for, unless it is there,** and changes no kind. -/
theorem kinds_perform (c : Call) (i : Import) :
    HasKinds (i.repository.kindsWith c.creations) (outcome (perform c) i).2 := by
  cases c with
  | createUser name password extra =>
    exact Keeps.after_bind (kinds_operation (.createUser name password) rfl i) fun _ =>
      isKeptUnder_kinds.setExtra (fun _ _ => rfl) extra
  | createGroup name members extra =>
    exact Keeps.after_bind (kinds_operation (.createGroup name) rfl i) fun _ =>
      (isKeptUnder_kinds.addMembers (fun _ => rfl) members).bind fun _ _ =>
        isKeptUnder_kinds.setExtra (fun _ _ => rfl) extra
  | _ => exact (kinds_perform_of_nil rfl i fun id => (i.repository.kindsWith_nil id).symm).1

/-! ## Documents -/

/-- The calls of a script that are carried out: those up to the first one that fails, which may have
done a part of what it was to do. -/
def performed (i : Import) : List Call → List Call
  | [] => []
  | c :: calls => c ::
    match outcome (perform c) i with
    | (.ok (), j) => performed j calls
    | (.error _, _) => []

theorem kinds_forM (calls : List Call) (i : Import) :
    HasKinds (i.repository.kindsWith ((performed i calls).flatMap Call.creations))
      (outcome (calls.forM perform) i).2 := by
  induction calls generalizing i with
  | nil => exact fun id => (i.repository.kindsWith_nil id).symm
  | cons c calls ih =>
    have hc := kinds_perform c i
    rw [List.forM, outcome_bind, performed, List.flatMap_cons]
    rcases houtcome : outcome (perform c) i with ⟨e | ⟨⟩, j⟩
    · rw [houtcome] at hc
      rwa [List.flatMap_nil, List.append_nil]
    · rw [houtcome] at hc
      exact fun id => (ih j id).trans (Repository.kindsWith_append hc _ id)

theorem kinds_run {α : Type} (s : Script α) (i : Import) :
    HasKinds (i.repository.kindsWith ((performed i s.calls).flatMap Call.creations))
      (outcome (run s) i).2 := by
  refine Keeps.after_bind (kinds_forM s.calls i) fun _ => ?_
  split
  · exact .pure trivial
  · exact .throw _

end Import

namespace Loader

variable (l : Loader) (clock : Int) (reader : DocumentReader) (s : Source) (target : String)
  (name : Option String) (r : Repository)

/-- What a document creates unless it is there, in order. -/
def creations : List (String × PrincipalKind) :=
  if r.hasNode target then
    (Import.performed { Import.new l.options clock r with opened := [target], defaultName := name }
      (reader.script r.restrictions s).calls).flatMap Call.creations
  else []

/-- **The kinds that a document leaves,** whether it can be read to its end or not. -/
theorem kind?_load (id : String) :
    (outcome (l.load clock reader s target name) r).2.kind? id =
      r.kindsWith (l.creations clock reader s target name r) id := by
  change (outcome (steps reader s target name) (Import.new l.options clock r)).2.repository.kind? id
    = _
  rw [creations, steps]
  by_cases htarget : r.hasNode target = true
  · rw [if_pos htarget, outcome_bind_of_ok (Import.outcome_prepare htarget l.options clock name),
      outcome_bind_of_ok (outcome_get _)]
    have hrun := Import.kinds_run (reader.script r.restrictions s)
      { Import.new l.options clock r with opened := [target], defaultName := name }
    exact Keeps.after_bind hrun (fun _ => (Import.isKeptUnder_kinds.finish fun _ => rfl).bind
      fun _ _ => .bind .get fun _ _ => .pure trivial) id
  · have hprepare : outcome (Import.prepare target name) (Import.new l.options clock r) =
        (.error (.repository (.nodeNotFound target)), Import.new l.options clock r) := by
      simp [Import.prepare, Import.new, htarget]
    rw [if_neg htarget, outcome_bind, hprepare]
    exact (r.kindsWith_nil id).symm

end Loader

/-! ## Histories -/

namespace Repository

/-- What happens to a repository. -/
inductive Event
  | operation (op : Operation)
  | load (l : Loader) (clock : Int) (reader : DocumentReader) (s : Source) (target : String)
    (name : Option String)

namespace Event

/-- The repository that an event leaves, whether it fails or not. -/
def after (r : Repository) : Event → Repository
  | operation op => op.after r
  | load l clock reader s target name => (outcome (l.load clock reader s target name) r).2

/-- What an event creates unless it is there, in order. -/
def creations (r : Repository) : Event → List (String × PrincipalKind)
  | operation op => op.creations
  | load l clock reader s target name => l.creations clock reader s target name r

theorem kind?_after (e : Event) (r : Repository) (id : String) :
    (e.after r).kind? id = r.kindsWith (e.creations r) id := by
  cases e with
  | operation op => exact Repository.kind?_after op r id
  | load l clock reader s target name => exact l.kind?_load clock reader s target name r id

theorem reachable_after {r : Repository} (hr : r.Reachable) (e : Event) :
    (e.after r).Reachable := by
  cases e with
  | operation op => exact hr.step op
  | load l clock reader s target name =>
    have hnew := Import.isContained_new l.options clock r target
    exact (Loader.contained_steps reader s name _ hnew).1.repository.reachable hr

end Event

/-- Events in the order in which they happen. -/
abbrev History := List Event

namespace History

/-- The repository that is left in the end. -/
def after : History → Repository → Repository
  | [], r => r
  | e :: h, r => after h (e.after r)

/-- What the events create unless it is there, in order. -/
def creations : History → Repository → List (String × PrincipalKind)
  | [], _ => []
  | e :: h, r => e.creations r ++ creations h (e.after r)

theorem reachable_after (h : History) {r : Repository} (hr : r.Reachable) :
    (h.after r).Reachable := by
  induction h generalizing r with
  | nil => exact hr
  | cons e h ih => exact ih (e.reachable_after hr)

/-- **After any history a kind is that of the first creation.** -/
theorem kind?_after (h : History) (r : Repository) (id : String) :
    (h.after r).kind? id = r.kindsWith (h.creations r) id := by
  induction h generalizing r with
  | nil => exact (r.kindsWith_nil id).symm
  | cons e h ih =>
    exact (ih (e.after r)).trans (kindsWith_append (e.kind?_after r) _ id)

end History

/-! ## The group of everyone -/

variable {r r' : Repository}

theorem Reachable.principal_everyone_eq (hr : r.Reachable) :
    r.principal Authorizable.everyone =
      .ok ⟨Authorizable.everyone, (r.kind? Authorizable.everyone).getD .group⟩ := by
  rw [principal, kind?]
  cases ha : r.authorizables.get? Authorizable.everyone with
  | none => rfl
  | some a =>
    have hid : a.principal = ⟨Authorizable.everyone, a.kind⟩ := by
      rw [Authorizable.principal, hr.id_eq _ a ha]
    exact congrArg Except.ok hid

/-- An update leaves entries of its principal as that is known. -/
theorem Reachable.principal_of_mem_acl (hr : r.Reachable) {path principal : String}
    {grants : List Grant} {order : Option String}
    (hupdate : outcome (updateEntries path principal grants order) r = (.ok (), r')) {e : Entry}
    (he : e ∈ r'.acl path) (hname : e.principalName = principal) :
    r.principal principal = .ok e.principal := by
  rw [outcome_updateEntries] at hupdate
  split at hupdate
  · cases hupdate
  split at hupdate
  · cases hupdate
  next acl hacl =>
  obtain ⟨p, es, hes, hplace⟩ := hr.updated_eq_ok_iff.1 hacl
  obtain ⟨-, hnew⟩ := hes.principalName_eq hr
  obtain ⟨d, -, hplaced⟩ := AccessList.exists_placedAt_of_place hnew hplace
  obtain rfl : { r with policies := r.policies.insert path acl } = r' := congrArg Prod.snd hupdate
  rw [Repository.acl, Table.get?_insert, if_pos rfl] at he
  rcases hplaced.mem he with hold | hin
  · exact absurd hname (AccessList.without_ne e hold)
  · obtain ⟨bound, -, hcompose⟩ := hes.composed
    rw [hes.resolved, principal_of_mem_compose hcompose hin]

/-- **The group of everyone is always known,** with the kind of what was first created under its
name, if anything was. The entries of that name that an update leaves are of the kind that is known
at the moment. -/
theorem History.principal_everyone {registry : Registry} (hr : registry.IsBuilt) (h : History) :
    (h.after (.new registry)).Reachable ∧
      (h.after (.new registry)).principal Authorizable.everyone =
        .ok ⟨Authorizable.everyone, (Table.lookup Authorizable.everyone
          (h.creations (.new registry))).getD .group⟩ ∧
      ∀ (r r' : Repository) (path : String) (grants : List Grant) (order : Option String),
        r.Reachable →
        outcome (updateEntries path Authorizable.everyone grants order) r = (.ok (), r') →
        ∀ e ∈ r'.acl path, e.principalName = Authorizable.everyone →
          r.principal Authorizable.everyone = .ok e.principal := by
  have hreachable := h.reachable_after (.new hr)
  refine ⟨hreachable, ?_, ?_⟩
  · rw [hreachable.principal_everyone_eq, h.kind?_after]
    rfl
  · intro r r' path grants order hr hupdate e he hname
    exact hr.principal_of_mem_acl hupdate he hname

/-- A document of JSON with a principal, which is a user as it does not say otherwise. -/
def principalSource (name : String) : Source where
  bytes := .ok (Utf8.encode
    ("\x7b\"security:principals\":\x7b\"name\":\"" ++ name ++ "\"\x7d\x7d"))
  origin := ⟨Table.empty, none, 0⟩

/-- Loading such a document into the root. -/
def principalLoad (name : String) : Event :=
  .load (.ofConfig {}) 0 (.ofFormat .json) (principalSource name) "/" none

/-- A group with the name of everyone, and then a user, which is not created. -/
def groupFirst : History :=
  [ principalLoad "ann", .operation (.createGroup "everyone"), principalLoad "everyone" ]

theorem principal_everyone_groupFirst :
    Registry.standard.IsBuilt ∧
      groupFirst.creations (.new .standard) =
        [("ann", .user), ("everyone", .group), ("everyone", .user)] ∧
      (groupFirst.after (.new .standard)).Reachable ∧
      (groupFirst.after (.new .standard)).principal "everyone" = .ok ⟨"everyone", .group⟩ := by
  have hcreations : groupFirst.creations (.new .standard) =
      [("ann", .user), ("everyone", .group), ("everyone", .user)] := by decide +kernel
  obtain ⟨hreachable, hprincipal, -⟩ := History.principal_everyone .standard groupFirst
  rw [hcreations] at hprincipal
  exact ⟨.standard, hcreations, hreachable, hprincipal⟩

/-- A user takes the name of everyone in a new repository. -/
def userFirst : History := [.operation (.createUser "everyone" none)]

/-- A document does the same, and then an update concerns everyone. -/
def userLoaded : History :=
  [ principalLoad "everyone", .operation (.updateEntries "/" "everyone"
    (Grants.allow Table.empty "jcr:read" .empty).values none) ]

/-- **Everyone need not be a group.** A user may have the name, by an operation or by a document,
and an entry that an update stores is then one for that user. -/
theorem everyone_taken :
    (userFirst.after (.new .standard)).principal Authorizable.everyone =
        .ok ⟨"everyone", .user⟩ ∧
      (userLoaded.after (.new .standard)).principal Authorizable.everyone =
        .ok ⟨"everyone", .user⟩ ∧
      ((userLoaded.after (.new .standard)).acl "/").map Entry.principal =
        [⟨"everyone", .user⟩] :=
  ⟨by decide +kernel, by decide +kernel, by decide +kernel⟩

end Repository

end ContentImport
