import ContentImport.Proofs.Except
import ContentImport.Proofs.Import.Nodes
import ContentImport.Proofs.Json.Members
import ContentImport.Proofs.Reader.Filled

/-!
# The nodes that a document denotes

An object of a JSON document denotes a node, and so do the objects that are its members, other than
members that are ignored and those that describe principals and access-control entries.

* `Denotes` says at which path which object denotes a node.
* Reading an object imports the nodes that it denotes and no others, and no node is removed by it
  but within the path of the object (`HasNodeNames.isImported`). That goes member by member: a
  member that denotes no node leaves the nodes as they are (`sameTree_member`), and what comes after
  one that does lies within the paths of its siblings (`adds_members`).
-/

namespace ContentImport.JsonReader

variable {path name q : String} {members ms : Json.Members} {S : Supported}

/-! ## Objects that denote nodes -/

/-- A member of that name denotes a node if it is an object. -/
structure IsNodeName (name : String) : Prop where
  ignored : name ∉ ignoredNames
  principals : name ≠ principalsMember
  access : name ≠ accessMember

/-- Of an object that denotes the node at a path, an object denotes the node at another path. -/
inductive Denotes (path : String) (members : Json.Members) : String → Json.Members → Prop
  | self : Denotes path members path members
  | child {q name : String} {ms children : Json.Members} (parent : Denotes path members q ms)
      (isName : IsNodeName name) (mem : (name, .object children) ∈ ms) :
      Denotes path members (Path.join q name) children

/-- The members that denote nodes have names that nodes can have. -/
inductive HasNodeNames : Json.Members → Prop
  | intro {members : Json.Members}
      (name : ∀ name children, (name, .object children) ∈ members → IsNodeName name →
        Path.isName name = true)
      (child : ∀ name children, (name, .object children) ∈ members → IsNodeName name →
        HasNodeNames children) :
      HasNodeNames members

/-- An object in one of some members denotes a node below a path. -/
def DenotesBelow (path : String) (members : Json.Members) (q : String) (ms : Json.Members) : Prop :=
  ∃ name children, (name, .object children) ∈ members ∧ IsNodeName name ∧
    Denotes (Path.join path name) children q ms

/-- What an object denotes is itself or in one of its members. -/
theorem denotes_iff :
    Denotes path members q ms ↔ (q = path ∧ ms = members) ∨ DenotesBelow path members q ms := by
  constructor
  · intro h
    induction h with
    | self => exact .inl ⟨rfl, rfl⟩
    | @child q m ms children _ hname hmem ih =>
      rcases ih with ⟨rfl, rfl⟩ | ⟨n, object, hobject, hn, hdenotes⟩
      · exact .inr ⟨m, children, hmem, hname, .self⟩
      · exact .inr ⟨n, object, hobject, hn, hdenotes.child hname hmem⟩
  · rintro (⟨rfl, rfl⟩ | ⟨name, object, hobject, hname, h⟩)
    · exact .self
    · induction h with
      | self => exact .child .self hname hobject
      | child _ hchild hmem ih => exact ih.child hchild hmem

theorem Denotes.isWithin (h : Denotes path members q ms) : Path.isWithin q path = true := by
  induction h with
  | self => exact Path.isWithin_refl path
  | child _ _ _ ih => exact Path.isWithin_join ih _

theorem denotesBelow_cons_iff {name : String} {children : Json.Members} (hname : IsNodeName name) :
    DenotesBelow path ((name, .object children) :: members) q ms ↔
      Denotes (Path.join path name) children q ms ∨ DenotesBelow path members q ms := by
  constructor
  · rintro ⟨n, object, hmem, hn, h⟩
    rcases List.mem_cons.1 hmem with heq | hmem
    · obtain ⟨rfl, hobject⟩ := Prod.mk.inj heq
      obtain rfl := Json.object.inj hobject
      exact .inl h
    · exact .inr ⟨n, object, hmem, hn, h⟩
  · rintro (h | ⟨n, object, hmem, hn, h⟩)
    · exact ⟨name, children, List.mem_cons_self, hname, h⟩
    · exact ⟨n, object, List.mem_cons_of_mem _ hmem, hn, h⟩

/-! ## Calls that leave the nodes -/

/-- A call neither opens nor closes a node. -/
def Stays : Call → Prop
  | .openNode _ _ _ | .closeNode | .openFile _ _ _ _ | .openPath _ _ => False
  | _ => True

open Import (SameTree OpensChild KeepsOutside)

theorem sameTree_perform {start : Import} {c : Call} (h : Stays c) :
    Keeps (SameTree start) (Import.perform c) := by
  cases c with
  | openNode | closeNode | openFile | openPath => cases h
  | setProperty => exact Import.sameTree_setProperty _ _ _
  | setProperties => exact Import.sameTree_setProperties _ _ _
  | createUser => exact Import.isStable_sameTree.createUser _ _ _
  | createGroup => exact Import.isStable_sameTree.createGroup _ _ _
  | setEntries => exact Import.isStable_sameTree.setEntries (Import.keeps_current fun _ => trivial)

theorem sameTree_run {start : Import} {s : Script Unit} (h : ∀ c ∈ s.calls, Stays c) :
    Keeps (SameTree start) (Import.run s) := by
  refine .bind (.forM fun c hc => sameTree_perform (h c hc)) fun _ _ => ?_
  split
  · exact .pure trivial
  · exact .throw _

section Calls

variable {P : Call → Prop}

/-- What holds of the call that a result gives, if it gives one, holds of all calls. -/
theorem forall_mem_calls_ofResult {r : Except ImportError Call} (h : ∀ c, r = .ok c → P c) :
    ∀ c ∈ ((Script.ofResult r).bind Script.call).calls, P c :=
  Script.forall_mem_calls_bind (List.forall_mem_nil _) fun c hc =>
    List.forall_mem_singleton.2 (h c hc)

theorem forall_mem_calls_each {α : Type} {f : α → Script Unit} {l : List α}
    (h : ∀ a ∈ l, ∀ c ∈ (f a).calls, P c) : ∀ c ∈ (Script.each f l).calls, P c := by
  induction l with
  | nil => exact List.forall_mem_nil _
  | cons a l ih =>
    obtain ⟨ha, hl⟩ := List.forall_mem_cons.1 h
    exact Script.forall_mem_calls_bind ha fun _ _ => ih hl

/-- The calls for principals create users and groups. -/
theorem forall_mem_calls_principals
    (huser : ∀ name password extra, P (.createUser name password extra))
    (hgroup : ∀ name ids extra, P (.createGroup name ids extra)) (j : Json) :
    ∀ c ∈ (principals j).calls, P c := by
  have hone : ∀ members, ∀ c ∈ (principal members).calls, P c := by
    refine fun members => forall_mem_calls_ofResult fun c hc => ?_
    rw [principalCall] at hc
    split at hc
    · obtain ⟨id, -, hc⟩ := andThen_eq_ok_iff.1 hc
      dsimp only at hc
      split at hc
      · split at hc
        all_goals
          obtain ⟨ids, -, hc⟩ := andThen_eq_ok_iff.1 hc
          obtain rfl := Except.ok.inj hc
          exact hgroup _ _ _
      · obtain rfl := Except.ok.inj hc
        exact huser _ _ _
    · cases hc
  cases j with
  | object members => exact hone members
  | array items =>
    refine forall_mem_calls_each fun item _ => ?_
    split
    · exact hone _
    · exact List.forall_mem_nil _
  | _ => exact List.forall_mem_nil _

/-- The calls for an access-control list replace entries. -/
theorem forall_mem_calls_accessList
    (hentries : ∀ principal grants order, P (.setEntries principal grants order))
    (S : Supported) (j : Json) : ∀ c ∈ (accessList S j).calls, P c := by
  have hone : ∀ members, ∀ c ∈ (entries S members).calls, P c := by
    refine fun members => forall_mem_calls_ofResult fun c hc => ?_
    rw [entriesCall] at hc
    split at hc
    · obtain ⟨id, -, hc⟩ := andThen_eq_ok_iff.1 hc
      obtain ⟨directive, -, hc⟩ := andThen_eq_ok_iff.1 hc
      obtain ⟨gs, -, hc⟩ := andThen_eq_ok_iff.1 hc
      obtain rfl := Except.ok.inj hc
      exact hentries _ _ _
    · cases hc
  cases j with
  | object members => exact hone members
  | array items =>
    refine forall_mem_calls_each fun item _ => ?_
    split
    · exact hone _
    · exact List.forall_mem_nil _
  | _ => exact List.forall_mem_nil _

end Calls

theorem stays_property (name : String) (j : Json) : ∀ c ∈ (property name j).calls, Stays c := by
  unfold property
  split
  · exact List.forall_mem_nil _
  · exact List.forall_mem_singleton.2 trivial
  · exact List.forall_mem_singleton.2 trivial
  · split
    · exact List.forall_mem_singleton.2 trivial
    · exact List.forall_mem_nil _

theorem member_principals (j : Json) : member S principalsMember j = principals j := by
  cases j <;> simp [member]

theorem member_access (j : Json) : member S accessMember j = accessList S j := by
  cases j <;> simp [member, show accessMember ≠ principalsMember by decide]

/-- Members that describe neither principals nor entries are read as objects or as properties. -/
theorem member_cases {j : Json} (hprincipals : name ≠ principalsMember)
    (haccess : name ≠ accessMember) :
    (∃ children, j = .object children ∧ member S name j = node S (some name) children) ∨
      (isObject j = false ∧ member S name j = property name j) := by
  cases j with
  | object children => exact .inl ⟨children, rfl, member_object hprincipals haccess⟩
  | _ => exact .inr ⟨rfl, by simp [member, hprincipals, haccess]⟩

/-- A member that denotes no node leaves the nodes as they are. -/
theorem sameTree_member {start : Import} {j : Json}
    (h : isObject j = true → ¬ (name ≠ principalsMember ∧ name ≠ accessMember)) :
    Keeps (SameTree start) (Import.run (member S name j)) := by
  refine sameTree_run ?_
  by_cases hprincipals : name = principalsMember
  · rw [hprincipals, member_principals]
    exact forall_mem_calls_principals (fun _ _ _ => trivial) (fun _ _ _ => trivial) j
  by_cases haccess : name = accessMember
  · rw [haccess, member_access]
    exact forall_mem_calls_accessList (fun _ _ _ => trivial) S j
  rcases member_cases (S := S) (j := j) hprincipals haccess with ⟨children, rfl, -⟩ | ⟨-, hmember⟩
  · exact absurd ⟨hprincipals, haccess⟩ (h rfl)
  · rw [hmember]
    exact stays_property name j

/-! ## What reading adds -/

/-- Nodes were imported and are there, and none was removed but at paths where something was
changed. -/
structure Adds (new changed : String → Prop) (i j : Import) : Prop where
  opened : j.opened = i.opened
  imported : ∀ p, p ∈ j.imported ↔ p ∈ i.imported ∨ new p
  added : ∀ p, new p → j.repository.hasNode p = true
  kept : ∀ p, ¬ changed p → i.repository.hasNode p = true → j.repository.hasNode p = true

section Adds

variable {new changed new' changed' : String → Prop} {i j k : Import}

theorem Adds.of_sameTree (h : SameTree i j) : Adds (fun _ => False) (fun _ => False) i j where
  opened := h.place.opened
  imported := fun p => by rw [h.place.imported, or_false]
  added := fun _ => False.elim
  kept := fun p _ hp => (h.hasNode p).trans hp

/-- What is new at first is to be spared by what comes next. -/
theorem Adds.trans (h : Adds new changed i j) (h' : Adds new' changed' j k)
    (hspared : ∀ p, new p → ¬ changed' p) :
    Adds (fun p => new p ∨ new' p) (fun p => changed p ∨ changed' p) i k where
  opened := h'.opened.trans h.opened
  imported := fun p => by rw [h'.imported, h.imported, or_assoc]
  added := fun p hp => hp.elim (fun hp => h'.kept p (hspared p hp) (h.added p hp)) (h'.added p)
  kept := fun p hp hi => h'.kept p (fun hc => hp (.inr hc)) (h.kept p (fun hc => hp (.inl hc)) hi)

theorem Adds.congr (h : Adds new changed i j) (hnew : ∀ p, new p ↔ new' p)
    (hchanged : ∀ p, changed p → changed' p) : Adds new' changed' i j where
  opened := h.opened
  imported := fun p => (h.imported p).trans (or_congr_right (hnew p))
  added := fun p hp => h.added p ((hnew p).2 hp)
  kept := fun p hp hi => h.kept p (fun hc => hp (hchanged p hc)) hi

end Adds

/-- Whatever import reads an object as a child of the current node, imports what the object
denotes, and changes nothing but within the child. -/
def IsImported (S : Supported) (members : Json.Members) : Prop :=
  ∀ {opening : Option String} {i j : Import} {parent name : String} {rest : List String},
    i.opened = parent :: rest →
    (∀ type mixins, outcome (Import.openNode opening type mixins) i =
      outcome (Import.openChild parent name type mixins) i) →
    outcome (Import.run (node S opening members)) i = (.ok (), j) →
    Adds (fun p => ∃ ms, Denotes (Path.join parent name) members p ms)
      (fun p => Path.isWithin p (Path.join parent name) = true) i j

/-- The parts of reading an object. -/
theorem exists_of_run_node {opening : Option String} {i j : Import}
    (h : outcome (Import.run (node S opening members)) i = (.ok (), j)) :
    ∃ type mixins i₁ i₂, outcome (Import.openNode opening type mixins) i = (.ok (), i₁) ∧
      outcome (Import.run (JsonReader.members S members)) i₁ = (.ok (), i₂) ∧
      outcome Import.closeNode i₂ = (.ok (), j) := by
  have haround : node S opening members = (Script.ofResult (openCall opening members)).bind
      fun c => (Script.call c).bind fun _ =>
        (JsonReader.members S members).bind fun _ => Script.call .closeNode := rfl
  cases hcall : openCall opening members with
  | error e =>
    rw [haround, hcall] at h
    cases h
  | ok c =>
    obtain ⟨mixins, -, hc⟩ := andThen_eq_ok_iff.1 hcall
    obtain rfl := Except.ok.inj hc
    rw [haround, hcall, Import.run_bind, Import.run_ofResult, pure_bind, Import.run_bind,
      Import.run_call] at h
    obtain ⟨_, i₁, hopen, h⟩ := outcome_bind_eq_ok h
    rw [Import.run_bind, Import.run_call] at h
    obtain ⟨_, i₂, hmembers, hclose⟩ := outcome_bind_eq_ok h
    exact ⟨_, mixins, i₁, i₂, hopen, hmembers, hclose⟩

/-- A member that denotes a node. -/
def IsChildMember (m : String × Json) : Prop := isObject m.2 = true ∧ IsNodeName m.1

theorem IsChildMember.exists_children {m : String × Json} (h : IsChildMember m) :
    ∃ children, m = (m.1, .object children) := by
  obtain ⟨name, j⟩ := m
  obtain ⟨hobject, -⟩ := h
  cases j with
  | object children => exact ⟨children, rfl⟩
  | _ => cases hobject

/-- A path lies within that of a member that denotes a node. -/
def IsWithinMember (path : String) (members : Json.Members) (p : String) : Prop :=
  ∃ m ∈ members, IsChildMember m ∧ Path.isWithin p (Path.join path m.1) = true

theorem denotesBelow_cons_of_not {m : String × Json} (h : ¬ IsChildMember m) :
    DenotesBelow path (m :: members) q ms ↔ DenotesBelow path members q ms := by
  constructor
  · rintro ⟨name, children, hmem, hname, hdenotes⟩
    rcases List.mem_cons.1 hmem with rfl | hmem
    · exact absurd ⟨rfl, hname⟩ h
    · exact ⟨name, children, hmem, hname, hdenotes⟩
  · rintro ⟨name, children, hmem, hname, hdenotes⟩
    exact ⟨name, children, List.mem_cons_of_mem _ hmem, hname, hdenotes⟩

theorem IsWithinMember.cons {p : String} (h : IsWithinMember path members p) (m : String × Json) :
    IsWithinMember path (m :: members) p := by
  obtain ⟨m', hmem, hchild, hwithin⟩ := h
  exact ⟨m', List.mem_cons_of_mem _ hmem, hchild, hwithin⟩

/-- Members are read one after the other below the current node. -/
theorem adds_members {i j : Import} {rest : List String} (hopened : i.opened = path :: rest)
    (hnodup : (members.map (·.1)).Nodup)
    (hnames : ∀ m ∈ members, IsChildMember m → Path.isName m.1 = true)
    (hchildren : ∀ name children, (name, .object children) ∈ members → IsNodeName name →
      IsImported S children)
    (h : outcome (Import.run (JsonReader.members S members)) i = (.ok (), j)) :
    Adds (fun p => ∃ ms, DenotesBelow path members p ms) (IsWithinMember path members) i j := by
  induction members generalizing i with
  | nil =>
    obtain ⟨-, rfl⟩ := Prod.mk.inj h
    refine (Adds.of_sameTree (.refl i)).congr (fun p => ⟨False.elim, ?_⟩) fun _ => False.elim
    rintro ⟨ms, name, children, hmem, -⟩
    cases hmem
  | cons m members ih =>
    obtain ⟨name, value⟩ := m
    obtain ⟨hnew, hdistinct⟩ := List.nodup_cons.1 hnodup
    obtain ⟨hname, hothernames⟩ := List.forall_mem_cons.1 hnames
    have hothers : ∀ name children, (name, .object children) ∈ members → IsNodeName name →
        IsImported S children :=
      fun name children hmem => hchildren name children (List.mem_cons_of_mem _ hmem)
    by_cases hignored : name ∈ ignoredNames
    · have hnot : ¬ IsChildMember (name, value) := fun hchild => hchild.2.ignored hignored
      rw [members_cons_of_ignored hignored] at h
      refine (ih hopened hdistinct hothernames hothers h).congr (fun p => ?_) fun p hp => hp.cons _
      exact exists_congr fun ms => (denotesBelow_cons_of_not hnot).symm
    rw [members_cons hignored, Import.run_bind] at h
    obtain ⟨_, k, hmember, hrest⟩ := outcome_bind_eq_ok h
    by_cases hchild : IsChildMember (name, value)
    · obtain ⟨children, heq⟩ := hchild.exists_children
      obtain rfl : value = .object children := congrArg Prod.snd heq
      rw [member_object hchild.2.principals hchild.2.access] at hmember
      have hfirst := hchildren name children List.mem_cons_self hchild.2 hopened
        (fun type mixins => Import.outcome_openNode_some hopened name type mixins) hmember
      have hsecond := ih (hfirst.opened.trans hopened) hdistinct hothernames hothers hrest
      refine (hfirst.trans hsecond ?_).congr (fun p => ?_) ?_
      · rintro p ⟨ms, hdenotes⟩ ⟨m, hmem, hm, hwithin⟩
        have hne : name ≠ m.1 := fun heq => hnew (List.mem_map.2 ⟨m, hmem, heq.symm⟩)
        have hout := Path.isWithin_sibling_eq_false (hname hchild) (hothernames m hmem hm) hne
          hdenotes.isWithin
        rw [hout] at hwithin
        cases hwithin
      · rw [← exists_or]
        exact exists_congr fun ms => (denotesBelow_cons_iff hchild.2).symm
      · rintro p (hwithin | hwithin)
        · exact ⟨_, List.mem_cons_self, hchild, hwithin⟩
        · exact hwithin.cons _
    · have htree : Import.SameTree i (outcome (Import.run (member S name value)) i).2 :=
        (sameTree_member (fun hobject hne => hchild ⟨hobject, hignored, hne.1, hne.2⟩) i
          (.refl i)).1
      rw [hmember] at htree
      have hfirst := Adds.of_sameTree htree
      have hsecond := ih (hfirst.opened.trans hopened) hdistinct hothernames hothers hrest
      refine (hfirst.trans hsecond fun _ => False.elim).congr (fun p => ?_) ?_
      · rw [false_or]
        exact exists_congr fun ms => (denotesBelow_cons_of_not hchild).symm
      · rintro p (hwithin | hwithin)
        · exact hwithin.elim
        · exact hwithin.cons _

/-- **Reading an object imports what it denotes,** and removes nothing but within its path. -/
theorem HasNodeNames.isImported (h : HasNodeNames members)
    (hdistinct : Json.HasDistinctNames (.object members)) : IsImported S members := by
  induction h with
  | @intro members hname _ ih =>
    intro opening i j parent name rest hopened hopening hrun
    obtain ⟨type, mixins, i₁, i₂, hopen, hmembers, hclose⟩ := exists_of_run_node hrun
    rw [hopening] at hopen
    have hopens := Import.openChild_ok hopen
    have hopened₁ : i₁.opened = Path.join parent name :: i.opened := hopens.opened
    have hnames : ∀ m ∈ members, IsChildMember m → Path.isName m.1 = true := by
      intro m hm hchild
      obtain ⟨children, heq⟩ := hchild.exists_children
      exact hname m.1 children (heq ▸ hm) hchild.2
    have hinside := adds_members hopened₁ hdistinct.nodup hnames (fun name children hmem hchild =>
      ih name children hmem hchild (hdistinct.member hmem)) hmembers
    obtain ⟨node, rest', hopened₂, htree⟩ := Import.closeNode_ok hclose
    obtain ⟨rfl, rfl⟩ : Path.join parent name = node ∧ i.opened = rest' :=
      List.cons.inj ((hinside.opened.trans hopened₁).symm.trans hopened₂)
    have hself : ¬ IsWithinMember (Path.join parent name) members (Path.join parent name) := by
      rintro ⟨m, hm, hchild, hwithin⟩
      have hne := (Path.isName_iff.1 (hnames m hm hchild)).1
      rw [Path.isWithin_join_eq_false (Path.isWithin_refl _) (Path.join_ne_root hne)] at hwithin
      cases hwithin
    constructor
    · exact htree.place.opened
    · intro p
      rw [htree.place.imported]
      change p ∈ i₂.imported ↔ _
      simp only [hinside.imported, hopens.imported, denotes_iff, or_assoc, exists_or,
        exists_and_left, exists_eq, and_true]
    · rintro p ⟨ms, hdenotes⟩
      rw [htree.hasNode]
      rcases denotes_iff.1 hdenotes with ⟨rfl, -⟩ | hbelow
      · exact hinside.kept _ hself hopens.hasNode
      · exact hinside.added p ⟨ms, hbelow⟩
    · intro p hp hnode
      rw [htree.hasNode]
      refine hinside.kept p ?_ (hopens.outside.hasNode (Bool.eq_false_iff.2 hp) hnode)
      rintro ⟨m, -, -, hwithin⟩
      exact hp (Path.isWithin_trans hwithin (Path.isWithin_join_self _ _))

end ContentImport.JsonReader
