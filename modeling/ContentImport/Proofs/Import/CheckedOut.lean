import ContentImport.Proofs.Import.Sourced

/-!
# The property that asks for a check-in

What the content says about `jcr:isCheckedOut` is to be taken down and never written. An import goes
by that for a single value that is no reference, and for no others: lists are written, and so are
references, at once or when their node is closed, and then also those with a name that ends in this
one behind a slash. Nothing else writes the property: `IsHeld` says that all that nodes hold under
the name is allowed, every action keeps that as far as it is allowed what the action writes
(`IsHeld.after`), and so does a whole session (`checkedOut_session`).
-/

namespace ContentImport.Import

variable {allowed : String → Property → Prop} {i : Import} {a : Action} {actions : List Action}
  {node owner name : String} {p : Property}

/-! ## What is written -/

/-- The properties that an action is to set to a list. -/
def lists (i : Import) : Action → List (String × String)
  | .call (.setProperties name _ _) => (i.opened.head?.map (·, name)).toList
  | _ => []

/-- References that are set as one of some properties may be written as the property that asks for a
check-in of a node: at once if they are set as that one, and otherwise when a node is closed for
which their path waits. -/
def Reaches (owner : String) (refs : List (String × String)) : Prop :=
  ∃ q ∈ refs, q = (owner, checkedOutName) ∨
    standsFor owner checkedOutName (Path.join q.1 q.2) = true

/-- The property that asks for a check-in comes from a list or from references. -/
def IsWritten (lists refs : List (String × String)) (owner : String) (p : Property) : Prop :=
  p.value? = none ∧ (owner, checkedOutName) ∈ lists ∨ p.type = .reference ∧ Reaches owner refs

theorem IsWritten.mono {lists lists' refs refs' : List (String × String)}
    (h : IsWritten lists refs owner p) (hlists : lists ⊆ lists') (hrefs : refs ⊆ refs') :
    IsWritten lists' refs' owner p := by
  rcases h with ⟨hp, hmem⟩ | ⟨hp, q, hq, hreaches⟩
  · exact .inl ⟨hp, hlists hmem⟩
  · exact .inr ⟨hp, q, hrefs hq, hreaches⟩

/-! ## The invariant -/

/-- The property that asks for a check-in is an allowed one wherever there is one, and all that
waits to be written as one is allowed. -/
structure IsHeld (allowed : String → Property → Prop) (i : Import) : Prop where
  held : ∀ owner p, i.repository.property? owner checkedOutName = some p → allowed owner p
  waiting : ∀ target paths, i.waiting.get? target = some paths → ∀ path ∈ paths,
    ∀ owner, standsFor owner checkedOutName path = true → ∀ p, p.type = .reference → allowed owner p

/-- An operation sets the property that asks for a check-in only where that is allowed. -/
def SetsOnly (allowed : String → Property → Prop) : Repository.Operation → Prop
  | .setProperty owner name p => name = checkedOutName → allowed owner p
  | _ => True

theorem isStable_held : IsStable (SetsOnly allowed) (IsHeld allowed) where
  principals := by
    intro op hop
    cases op <;> trivial
  operation := by
    intro op hop i hi
    refine ⟨fun owner p hp => (property?_of_after op hp).elim (hi.held owner p) ?_, hi.waiting⟩
    rintro rfl
    exact hop rfl
  notes := fun _ _ _ _ hi => ⟨hi.held, hi.waiting⟩
  records := fun _ _ _ hi => ⟨hi.held, hi.waiting⟩

/-! ## Nodes and files -/

theorem held_openNode (child : Option String) (type : Option String) (mixins : List String) :
    Keeps (IsHeld allowed) (openNode child type mixins) :=
  keeps_openNode (keeps_current fun _ => trivial) (fun _ _ _ =>
    isStable_held.openChild (isStable_held.clear trivial) (fun _ => trivial)
      (fun _ => trivial) (.modify fun _ hi => ⟨hi.held, hi.waiting⟩) type mixins) child

/-- The properties of a file have other names. -/
theorem held_openFile (file : String) (data : Except FileError Bytes) (mediaType : Option String)
    (modified : Int) : Keeps (IsHeld allowed) (openFile file data mediaType modified) := by
  have hset : ∀ other v, other ≠ checkedOutName →
      Keeps (IsHeld allowed) (setFileProperty other v) := fun other v hother =>
    isStable_held.setFileProperty (keeps_current fun _ heq => absurd heq hother)
  exact keeps_openFile (keeps_current fun _ => trivial)
    (fun _ _ => isStable_held.openStoredFile (fun _ _ _ => trivial)
      (fun _ _ hi => ⟨hi.held, hi.waiting⟩) _ modified)
    (fun child type => held_openNode child type []) fun _ _ =>
      keeps_writeContent (fun _ => hset _ _ (by decide)) (fun _ _ _ _ => hset _ _ (by decide))
        fun _ => hset _ _ (by decide)

theorem held_openPath (path : String) (type : Option String) :
    Keeps (IsHeld allowed) (openPath path type) :=
  isStable_held.openPath (fun _ _ _ => trivial) (fun _ _ hi => ⟨hi.held, hi.waiting⟩) path type

/-! ## Properties -/

/-- A reference may wait only if it is allowed where it is to be written. -/
theorem held_lookUp {F : Except String String → Prop} (hF : ∀ found, F found)
    (hallowed : ∀ owner, standsFor owner checkedOutName (Path.join node name) = true →
      ∀ p, p.type = .reference → allowed owner p) (reference : String) :
    Keeps (IsHeld allowed) (lookUp node name reference) F := by
  refine keeps_lookUp (fun _ _ _ _ => hF _) (hF _) fun i hi _ => ⟨hi.held, ?_⟩
  refine Table.forall_get?_insert hi.waiting fun path hpath => ?_
  rcases List.mem_append.1 hpath with hold | hnew
  · cases hget : i.waiting.get? (Path.resolve node reference) with
    | none =>
      rw [hget] at hold
      cases hold
    | some paths =>
      rw [hget] at hold
      exact hi.waiting _ paths hget path hold
  · rw [List.mem_singleton.1 hnew]
    exact hallowed

/-- A property of the current node is set. -/
theorem held_setWith (hi : IsHeld allowed i) (name : String) {set : String → Step Unit}
    (hset : ∀ node, i.opened.head? = some node → Keeps (IsHeld allowed) (set node)) :
    IsHeld allowed (outcome (setWith name set) i).2 := by
  have hmentioned : IsHeld allowed { i with mentioned := including i.mentioned name } :=
    (isStable_held.mention name i hi).1
  cases hcurrent : i.opened with
  | nil =>
    rw [outcome_setWith_of_nil hcurrent]
    exact hmentioned
  | cons node rest =>
    rw [outcome_setWith hcurrent]
    split
    · exact hmentioned
    · exact (hset node (by rw [hcurrent]; rfl) _ hmentioned).1

theorem held_assign {type : ValueType} {text : String}
    (href : type = .reference → ∀ owner p, p.type = .reference →
      Reaches owner [(node, name)] → allowed owner p) :
    Keeps (IsHeld allowed) (assign node name type text) := by
  refine keeps_assign (F := fun _ => type = .reference) (fun htype => held_lookUp (fun _ => htype)
    (fun owner hstands p hp => ?_) text) (fun id htype => isStable_held.write fun hname => ?_)
    (isStable_held.recordVersionable node) fun v _ hname _ => isStable_held.write fun heq => ?_
  · exact href htype owner p hp ⟨_, List.mem_singleton_self _, .inr hstands⟩
  · exact href htype node _ rfl ⟨_, List.mem_singleton_self _, .inl (by rw [hname])⟩
  · exact absurd heq hname

theorem held_assignAll {type : ValueType} {texts : List String}
    (hlist : name = checkedOutName → ∀ p, p.value? = none → allowed node p)
    (href : type = .reference → ∀ owner p, p.type = .reference →
      Reaches owner [(node, name)] → allowed owner p) :
    Keeps (IsHeld allowed) (assignAll node name type texts) := by
  refine keeps_assignAll (F := fun _ => True) (fun htype reference =>
      held_lookUp (fun _ => trivial) (fun owner hstands p hp => ?_) reference)
    (fun _ _ _ => .modify fun _ hi => ⟨hi.held, hi.waiting⟩)
    (fun _ _ => isStable_held.write fun hname => hlist hname _ rfl)
    fun _ _ _ => isStable_held.write fun hname => hlist hname _ rfl
  exact href htype owner p hp ⟨_, List.mem_singleton_self _, .inr hstands⟩

/-! ## Closing nodes -/

/-- What is written in the end for a reference that waited is one. -/
theorem type_settledProperty (path node id : String) :
    Keeps (IsHeld allowed) (settledProperty path node id) fun p => p.type = .reference := by
  refine .bind .get fun i _ => ?_
  split
  · exact .pure rfl
  · exact .bind (.modify fun _ hj => ⟨hj.held, hj.waiting⟩) fun _ _ => .pure rfl

theorem held_closeNode : Keeps (IsHeld allowed) closeNode := by
  refine keeps_closeNode fun _ _ node _ _ => ⟨fun _ hj => ⟨hj.held, hj.waiting⟩,
    keeps_settleNode (fun _ _ _ => isStable_held.removeUnmentioned fun _ => trivial) ?_⟩
  refine keeps_settleReferences (fun i hi => ⟨hi.held, fun target paths hget => ?_⟩)
    fun i hi paths hpaths path hpath _ _ n _ => ?_
  · rw [Table.get?_erase] at hget
    split at hget
    · cases hget
    · exact hi.waiting target paths hget
  · refine keeps_settleProperty (type_settledProperty path node n.identifier)
      fun owner howner p hp => isStable_held.onRepository (.setProperty owner (Path.name path) p)
        (fun hname => ?_) fun _ => rfl
    refine hi.waiting node paths hpaths path hpath owner ?_ p hp
    simp [standsFor, howner, hname]

/-! ## Actions -/

/-- **Every action keeps the property an allowed one,** if what the action writes is allowed. -/
theorem IsHeld.after (h : IsHeld allowed i)
    (hwrites : ∀ owner p, IsWritten (i.lists a) (i.references a) owner p → allowed owner p) :
    IsHeld allowed (i.after a) := by
  cases a with
  | finish => exact (isStable_held.finish (fun _ => trivial) i h).1
  | wait => exact ⟨h.held, h.waiting⟩
  | call c =>
    cases c with
    | openNode child type mixins => exact (held_openNode child type mixins i h).1
    | closeNode => exact (held_closeNode i h).1
    | setProperty name type text =>
      refine held_setWith h name fun node hnode => held_assign ?_
      rintro rfl owner p hp hreaches
      exact hwrites owner p (.inr ⟨hp, by simpa [references, hnode] using hreaches⟩)
    | setProperties name type texts =>
      refine held_setWith h name fun node hnode => held_assignAll ?_ ?_
      · rintro rfl p hp
        exact hwrites node p (.inl ⟨hp, by simp [lists, hnode]⟩)
      · rintro rfl owner p hp hreaches
        exact hwrites owner p (.inr ⟨hp, by simpa [references, hnode] using hreaches⟩)
    | openFile file data mediaType modified =>
      exact (held_openFile file data mediaType modified i h).1
    | openPath path type => exact ((held_openPath path type).discard i h).1
    | createUser id password extra => exact (isStable_held.createUser id password extra i h).1
    | createGroup id members extra => exact (isStable_held.createGroup id members extra i h).1
    | setEntries => exact (isStable_held.setEntries (keeps_current fun _ => trivial) i h).1

theorem IsHeld.foldl_after (h : IsHeld allowed i)
    (hwrites : ∀ owner p, IsWritten (trace lists i actions) (trace references i actions) owner p →
      allowed owner p) : IsHeld allowed (actions.foldl Import.after i) := by
  induction actions generalizing i with
  | nil => exact h
  | cons a actions ih =>
    refine ih (h.after fun owner p hp => hwrites owner p ?_) fun owner p hp => hwrites owner p ?_
    · exact hp.mono (List.subset_append_left _ _) (List.subset_append_left _ _)
    · exact hp.mono (List.subset_append_right _ _) (List.subset_append_right _ _)

/-- **The property that asks for a check-in comes from a list or from references,** if the node did
not have it before. Nothing else that happens in a session writes it, or changes it. -/
theorem checkedOut_session (options : ImportOptions) (clock : Int) (r : Repository)
    (target : String) (top : Option String) (actions : List Action)
    (hp : (session options clock r target top actions).repository.property? owner
      checkedOutName = some p) :
    r.property? owner checkedOutName = some p ∨
      IsWritten (trace lists (prepared options clock r target top) actions)
        (trace references (prepared options clock r target top) actions) owner p := by
  have hprepared : IsHeld (fun owner p => r.property? owner checkedOutName = some p ∨
      IsWritten (trace lists (prepared options clock r target top) actions)
        (trace references (prepared options clock r target top) actions) owner p)
      (prepared options clock r target top) := by
    rw [prepared_eq]
    split <;> exact ⟨fun _ _ => .inl, fun _ _ hget => nomatch hget⟩
  have hlast := hprepared.foldl_after fun _ _ => .inr
  rw [foldl_prepared] at hlast
  exact hlast.held owner p hp

/-- A node whose content asks to check it in, with a single value and then with a list. -/
def listedActions : List Action :=
  [ .call (.openNode none none []), .call (.setProperty checkedOutName .boolean "false"),
    .call (.setProperties checkedOutName .boolean ["true"]) ]

theorem checkedOut_session_listed :
    (session {} 0 (.new .standard) "/" (some "x") listedActions).repository.property? "/x"
        checkedOutName = some (.multiple .boolean [.boolean true]) ∧
      ((Repository.new .standard).property? "/x" checkedOutName =
          some (.multiple .boolean [.boolean true]) ∨
        IsWritten (trace lists (prepared {} 0 (.new .standard) "/" (some "x")) listedActions)
          (trace references (prepared {} 0 (.new .standard) "/" (some "x")) listedActions) "/x"
          (.multiple .boolean [.boolean true])) :=
  have hp : (session {} 0 (.new .standard) "/" (some "x") listedActions).repository.property? "/x"
      checkedOutName = some (.multiple .boolean [.boolean true]) := by decide +kernel
  ⟨hp, checkedOut_session {} 0 (.new .standard) "/" (some "x") listedActions hp⟩

/-- A node with a reference to the root under the name. -/
def referringActions : List Action :=
  [.call (.openNode none none []), .call (.setProperty checkedOutName .reference "/")]

/-- A reference of the target waits for a node under a name that ends in this one. -/
def waitingActions : List Action :=
  [ .call (.setProperty ("x/" ++ checkedOutName) .reference "x"),
    .call (.openNode (some "x") none []), .call .closeNode ]

/-- **The property is written nevertheless:** as a list, as a reference, and as a reference that
waited. No node of the new repository had it. -/
theorem checkedOut_written :
    (∀ path, (Repository.new .standard).property? path checkedOutName = none) ∧
      (session {} 0 (.new .standard) "/" (some "x") listedActions).repository.property? "/x"
        checkedOutName = some (.multiple .boolean [.boolean true]) ∧
      (session {} 0 (.new .standard) "/" (some "x") referringActions).repository.property? "/x"
        checkedOutName = some (.single (.reference (Repository.identifier 0))) ∧
      (session {} 0 (.new .standard) "/" none waitingActions).repository.property? "/x"
        checkedOutName = some (.single (.reference (Repository.identifier 1))) := by
  refine ⟨fun path => ?_, by decide +kernel, by decide +kernel, by decide +kernel⟩
  rw [Repository.property?, Repository.node?, Repository.new, Table.get?_insert]
  split <;> rfl

end ContentImport.Import
