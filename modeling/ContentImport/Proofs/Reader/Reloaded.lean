import ContentImport.Proofs.Import.Repeat
import ContentImport.Proofs.Reader.Denoted
import ContentImport.Proofs.Reader.RoundTrip

/-!
# Documents that are loaded again

A document that has been loaded can be loaded once more by a loader that leaves alone what is there,
and then nothing changes.

* That holds of all documents whose calls are plain and which close the nodes that they open
  (`load_again_of_plain`).
* The calls of a JSON document are plain if it describes no principals and no entries of
  access-control lists, and if its properties have proper names (`DescribesNodes.isPlainCall`). It
  closes the nodes that it opens (`DescribesNodes.opened_members`).
-/

namespace ContentImport

open Import (IsPlainCall IsReady Repeats)

namespace Loader

variable {l : Loader} {clock : Int} {reader : DocumentReader} {s : Source} {target : String}
  {name : Option String} {r : Repository} {created : List String}

/-- **A document of plain calls is loaded again without a change,** if it closes the nodes that it
opens. -/
theorem load_again_of_plain (hr : r.Reachable) (hoptions : l.options.IsAdditive)
    (hplain : ∀ c ∈ (reader.script r.restrictions s).calls, IsPlainCall c)
    (hclosed : ∀ i, outcome (Import.run (reader.script r.restrictions s))
        { Import.new l.options clock r with opened := [target], defaultName := name } =
      (.ok (), i) → ∀ path ∈ i.opened, path = target)
    (hload : (outcome (l.load clock reader s target name) r).1 = .ok created) (clock' : Int) :
    outcome (l.load clock' reader s target name)
        (outcome (l.load clock reader s target name) r).2 =
      (.ok [], (outcome (l.load clock reader s target name) r).2) := by
  obtain ⟨i, htarget, hrun, -⟩ := exists_run_of_load hload
  have hcontained := Import.isContained_of_run htarget hrun
  have hoptions' : i.options = l.options := hcontained.options
  have hleft := outcome_load_of_run htarget hrun (hoptions' ▸ hoptions.merge)
  rw [hleft]
  have hready : IsReady target
      { Import.new l.options clock r with opened := [target], defaultName := name } :=
    ⟨hoptions, htarget, List.forall_mem_singleton.2 ⟨hr.isTree.ne_empty htarget, htarget⟩⟩
  have hrepeats : Repeats i.repository
      { Import.new l.options clock r with opened := [target], defaultName := name }
      { Import.new l.options clock' i.repository with opened := [target], defaultName := name } :=
    ⟨hoptions, rfl, rfl, rfl, rfl, rfl, fun _ _ => rfl⟩
  obtain ⟨k, hagain, hk⟩ :=
    Import.exists_outcome_run_again hplain hready hrun (hclosed i hrun) hrepeats
  have hrestrictions : i.repository.restrictions = r.restrictions :=
    (hcontained.repository.reachable hr).restrictions_eq.trans hr.restrictions_eq.symm
  have htarget' : i.repository.hasNode target = true :=
    hcontained.repository.sameOutside.target htarget
  rw [← hrestrictions] at hagain
  rw [outcome_load_of_run htarget' hagain hk.options.merge, hk.created, hk.repository]

end Loader

namespace JsonReader

variable {name : String} {members : Json.Members} {S : Supported} {j : Json} {i i' : Import}

/-! ## Plain documents -/

/-- No object in some members describes principals or entries of access-control lists, and the names
of properties are not empty and have no slashes. -/
inductive DescribesNodes : Json.Members → Prop
  | intro {members : Json.Members}
      (principals : ∀ m ∈ members, m.1 ≠ principalsMember)
      (access : ∀ m ∈ members, m.1 ≠ accessMember)
      (property : ∀ m ∈ members, m.1 ∉ ignoredNames → isObject m.2 = false → m.2 ≠ .null →
        propertyName m.1 ≠ "" ∧ '/' ∉ (propertyName m.1).toList)
      (child : ∀ name children, (name, .object children) ∈ members → name ∉ ignoredNames →
        DescribesNodes children) :
      DescribesNodes members

/-! ## Calls -/

theorem isPlainCall_property
    (h : j ≠ .null → propertyName name ≠ "" ∧ '/' ∉ (propertyName name).toList) :
    ∀ c ∈ (property name j).calls, IsPlainCall c := by
  unfold property
  split
  · exact List.forall_mem_nil _
  · exact List.forall_mem_singleton.2 (h nofun)
  · exact List.forall_mem_singleton.2 (h nofun)
  · next hnull _ _ =>
    split
    · exact List.forall_mem_singleton.2 (h hnull)
    · exact List.forall_mem_nil _

theorem isPlainCall_node {opening : Option String}
    (h : ∀ c ∈ (JsonReader.members S members).calls, IsPlainCall c) :
    ∀ c ∈ (node S opening members).calls, IsPlainCall c := by
  refine Script.forall_mem_calls_bind (List.forall_mem_nil _) fun c hc => ?_
  obtain ⟨mixins, -, hc⟩ := andThen_eq_ok_iff.1 hc
  obtain rfl := Except.ok.inj hc
  refine Script.forall_mem_calls_bind (List.forall_mem_singleton.2 trivial) fun _ _ => ?_
  exact Script.forall_mem_calls_bind h fun _ _ => List.forall_mem_singleton.2 trivial

theorem isPlainCall_members
    (h : ∀ m ∈ members, m.1 ∉ ignoredNames → ∀ c ∈ (member S m.1 m.2).calls, IsPlainCall c) :
    ∀ c ∈ (JsonReader.members S members).calls, IsPlainCall c := by
  induction members with
  | nil => exact List.forall_mem_nil _
  | cons m members ih =>
    obtain ⟨name, j⟩ := m
    obtain ⟨hfirst, hrest⟩ := List.forall_mem_cons.1 h
    by_cases hignored : name ∈ ignoredNames
    · rw [members_cons_of_ignored hignored]
      exact ih hrest
    · rw [members_cons hignored]
      exact Script.forall_mem_calls_bind (hfirst hignored) fun _ _ => ih hrest

/-- **A document that describes nodes is read as plain calls.** -/
theorem DescribesNodes.isPlainCall (h : DescribesNodes members) :
    ∀ c ∈ (JsonReader.members S members).calls, IsPlainCall c := by
  induction h with
  | @intro members hprincipals haccess hproperty _ ih =>
    refine isPlainCall_members fun m hm hignored => ?_
    obtain ⟨name, j⟩ := m
    rcases member_cases (S := S) (j := j) (hprincipals _ hm) (haccess _ hm) with
      ⟨children, rfl, hmember⟩ | ⟨hobject, hmember⟩
    · rw [hmember]
      exact isPlainCall_node (ih name children hm hignored)
    · rw [hmember]
      exact isPlainCall_property (hproperty _ hm hignored hobject)

/-! ## Open nodes -/

/-- Reading an object leaves the open nodes, except for the current one if it has no name. -/
theorem opened_node {opening : Option String}
    (hmembers : ∀ i i', outcome (Import.run (JsonReader.members S members)) i = (.ok (), i') →
      i'.opened = i.opened)
    (h : outcome (Import.run (node S opening members)) i = (.ok (), i')) :
    i'.opened = i.opened ∨ (opening = none ∧ i'.opened = i.opened.tail) := by
  obtain ⟨type, mixins, i₁, i₂, hopen, hinside, hclose⟩ := exists_of_run_node h
  obtain ⟨node, rest, hopened, htree⟩ := Import.closeNode_ok hclose
  rw [htree.place.opened]
  change rest = _ ∨ _ ∧ rest = _
  have hopened₁ : i₁.opened = node :: rest := (hmembers i₁ i₂ hinside).symm.trans hopened
  rcases Import.openNode_ok hopen with ⟨hname, -, rfl⟩ | ⟨parent, child, -, hchild⟩
  · exact .inr ⟨hname, (congrArg List.tail hopened₁).symm⟩
  · have hopens := Import.openChild_ok hchild
    exact .inl (List.cons.inj (hopened₁.symm.trans hopens.opened)).2

theorem opened_members
    (h : ∀ m ∈ members, m.1 ∉ ignoredNames → ∀ i i',
      outcome (Import.run (member S m.1 m.2)) i = (.ok (), i') → i'.opened = i.opened)
    (hrun : outcome (Import.run (JsonReader.members S members)) i = (.ok (), i')) :
    i'.opened = i.opened := by
  induction members generalizing i with
  | nil =>
    obtain ⟨-, rfl⟩ := Prod.mk.inj hrun
    rfl
  | cons m members ih =>
    obtain ⟨name, j⟩ := m
    obtain ⟨hfirst, hrest⟩ := List.forall_mem_cons.1 h
    by_cases hignored : name ∈ ignoredNames
    · rw [members_cons_of_ignored hignored] at hrun
      exact ih hrest hrun
    · rw [members_cons hignored, Import.run_bind] at hrun
      obtain ⟨_, i₁, hmember, hrun⟩ := outcome_bind_eq_ok hrun
      exact (ih hrest hrun).trans (hfirst hignored i i₁ hmember)

/-- **All nodes that the members of an object open are closed in the end.** -/
theorem DescribesNodes.opened_members (h : DescribesNodes members) :
    ∀ i i', outcome (Import.run (JsonReader.members S members)) i = (.ok (), i') →
      i'.opened = i.opened := by
  induction h with
  | @intro members hprincipals haccess _ _ ih =>
    intro i i' hrun
    refine JsonReader.opened_members (fun m hm hignored i i' hmember => ?_) hrun
    obtain ⟨name, j⟩ := m
    rcases member_cases (S := S) (j := j) (hprincipals _ hm) (haccess _ hm) with
      ⟨children, rfl, hnode⟩ | ⟨hobject, -⟩
    · rw [hnode] at hmember
      exact (opened_node (ih name children hm hignored) hmember).resolve_right
        fun hnone => by cases hnone.1
    · have hnot : isObject j = true → ¬ (name ≠ principalsMember ∧ name ≠ accessMember) := by
        rw [hobject]
        exact nofun
      have htree : Import.SameTree i (outcome (Import.run (member S name j)) i).2 :=
        (sameTree_member hnot i (.refl i)).1
      rw [hmember] at htree
      exact htree.place.opened

/-! ## Documents -/

variable {l : Loader} {clock : Int} {reader : DocumentReader} {s : Source} {target : String}
  {top : Option String} {r : Repository} {bytes : Bytes} {text : String} {created : List String}

/-- **A JSON document that has been loaded is loaded again without a change.** Nodes, types, mixin
types, properties, the order of children and access-control lists are as they were, and no node is
created. -/
theorem load_again (hr : r.Reachable) (hoptions : l.options = {})
    (hformat : reader.format = .ok .json) (hbytes : s.bytes = .ok bytes)
    (htext : decode bytes = .ok text) (hobject : document? text = .ok members)
    (hnodes : DescribesNodes members)
    (hload : (outcome (l.load clock reader s target top) r).1 = .ok created) (clock' : Int) :
    outcome (l.load clock' reader s target top) (outcome (l.load clock reader s target top) r).2 =
      (.ok [], (outcome (l.load clock reader s target top) r).2) := by
  have hscript := script_of_document hformat hbytes htext hobject r.restrictions
  refine Loader.load_again_of_plain hr (hoptions ▸ ⟨rfl, rfl, rfl, rfl⟩) ?_ (fun i hrun => ?_) hload
    clock'
  · rw [hscript]
    exact isPlainCall_node hnodes.isPlainCall
  · rw [hscript] at hrun
    rcases opened_node hnodes.opened_members hrun with hopened | ⟨-, hopened⟩
    · rw [hopened]
      exact List.forall_mem_singleton.2 rfl
    · rw [hopened]
      exact List.forall_mem_nil _

/-- A document is loaded as the members of its object are read. -/
theorem outcome_load_of_node (hformat : reader.format = .ok .json) (hbytes : s.bytes = .ok bytes)
    (htext : decode bytes = .ok text) (hobject : document? text = .ok members)
    (htarget : r.hasNode target = true)
    (hrun : outcome (Import.run (node (supported r.restrictions) none members))
        { Import.new l.options clock r with opened := [target], defaultName := top } = (.ok (), i))
    (hmerge : i.options.merge = false) :
    outcome (l.load clock reader s target top) r = (.ok i.created, i.repository) := by
  rw [← script_of_document hformat hbytes htext hobject] at hrun
  exact Loader.outcome_load_of_run htarget hrun hmerge

/-- A document whose top node refers to its child, and in a list also to a node that is missing. Two
of its members set the same property. -/
def linkedText : String :=
  "\x7b\"jcr:reference:n\":\"b\",\"jcr:reference:l\":[\"c\",\"b\"],\"jcr:isCheckedOut\":false," ++
    "\"t\":\"u\",\"jcr:name:t\":\"v\",\"b\":\x7b\"jcr:mixinTypes\":[\"m\"]\x7d\x7d"

/-- What the document describes. -/
def linkedMembers : Json.Members :=
  [ ("jcr:reference:n", .string "b"), ("jcr:reference:l", .array [.string "c", .string "b"]),
    ("jcr:isCheckedOut", .bool false), ("t", .string "u"), ("jcr:name:t", .string "v"),
    ("b", .object [("jcr:mixinTypes", .array [.string "m"])]) ]

theorem describesNodes_linkedMembers : DescribesNodes linkedMembers := by
  have hb : DescribesNodes [("jcr:mixinTypes", .array [.string "m"])] := by
    refine .intro (by decide) (by decide) (by decide) fun name children h => ?_
    cases List.mem_singleton.1 h
  refine .intro (by decide) (by decide) (by decide) fun name children h _ => ?_
  simp only [linkedMembers, List.mem_cons, Prod.mk.injEq, reduceCtorEq, and_false, false_or,
    Json.object.injEq, List.not_mem_nil, or_false] at h
  exact h.2 ▸ hb

/-- The source of the document. -/
def linkedSource : Source :=
  { bytes := .ok (Utf8.encode linkedText), origin := ⟨Table.empty, none, 0⟩ }

/-- What loading the document into a repository returns and leaves. -/
def linkedLoad (clock : Int) (r : Repository) : Except ImportError (List String) × Repository :=
  outcome ((Loader.ofConfig {}).load clock (.ofFormat .json) linkedSource "/" (some "a")) r

/-- What reading the members into a new repository returns, with the import that it leaves. -/
def linkedRun : Except ImportError Unit × Import :=
  outcome (Import.run (node (supported (Repository.new .standard).restrictions) none linkedMembers))
    { Import.new (Loader.ofConfig {}).options 0 (.new .standard) with
      opened := ["/"], defaultName := some "a" }

theorem load_again_linkedText :
    decode (Utf8.encode linkedText) = .ok linkedText ∧
      document? linkedText = .ok linkedMembers ∧ DescribesNodes linkedMembers ∧
      (linkedLoad 0 (.new .standard)).1 = .ok ["/a", "/a/b"] ∧
      linkedLoad 1 (linkedLoad 0 (.new .standard)).2 =
        (.ok [], (linkedLoad 0 (.new .standard)).2) := by
  have htext : decode (Utf8.encode linkedText) = .ok linkedText := by decide +kernel
  have hobject : document? linkedText = .ok linkedMembers := by decide +kernel
  have hload : (linkedLoad 0 (.new .standard)).1 = .ok ["/a", "/a/b"] := by
    have hok : linkedRun.1 = .ok () := by decide +kernel
    have hmerge : linkedRun.2.options.merge = false := by decide +kernel
    have hcreated : linkedRun.2.created = ["/a", "/a/b"] := by decide +kernel
    have hrun : linkedRun = (.ok (), linkedRun.2) := Prod.ext hok rfl
    have htarget : (Repository.new .standard).hasNode "/" = true := by decide +kernel
    have hleft : linkedLoad 0 (.new .standard) =
        (.ok linkedRun.2.created, linkedRun.2.repository) :=
      outcome_load_of_node rfl rfl htext hobject htarget hrun hmerge
    rw [hleft, hcreated]
  exact ⟨htext, hobject, describesNodes_linkedMembers, hload, load_again (.new .standard) rfl rfl
    rfl htext hobject describesNodes_linkedMembers hload 1⟩

end JsonReader

end ContentImport
