import ContentImport.Proofs.Import.ReferenceList
import ContentImport.Proofs.Import.Retained

/-!
# Properties that the content does not mention

With the option to merge properties, a node that is closed loses those of its properties that the
content does not mention. An import takes down what the content mentions by name alone. So a
property of a node that nothing waits for is removed unless it is protected or any call before set a
property of its name, no matter of which node (`property?_closeNode`). In particular a property that
no call set is kept if another node has one of its name (`unmentioned_not_removed`).
-/

namespace ContentImport.Import

variable {options : ImportOptions} {clock : Int} {r : Repository} {target node name : String}
  {top : Option String} {rest : List String} {names : List String} {a : Action}
  {actions : List Action}

/-! ## Mentioned names -/

/-- The content mentions just these names. -/
def Mentions (names : List String) (i : Import) : Prop := i.mentioned = names

theorem mentions_onRepository {α : Type} (change : Repository.Change α) :
    Keeps (Mentions names) (onRepository change) := by
  intro i hi
  rw [onRepository, outcome_onRepositoryWith]
  rcases outcome change i.repository with ⟨e | a, r⟩ <;> exact ⟨hi, fun _ _ => trivial⟩

theorem mentions_write (node other : String) (property : Property) :
    Keeps (Mentions names) (write node other property) :=
  (mentions_onRepository _).bind fun _ _ => .modify fun _ h => h

theorem mentions_lookUp (node other reference : String) :
    Keeps (Mentions names) (lookUp node other reference) :=
  keeps_lookUp (fun _ _ _ _ => trivial) trivial fun _ h _ => h

theorem mentions_assign (node other : String) (type : ValueType) (text : String) :
    Keeps (Mentions names) (assign node other type text) :=
  keeps_assign (fun _ => mentions_lookUp node other text)
    (fun _ _ => mentions_write node other _) (.modify fun _ h => h)
    fun _ _ _ _ => mentions_write node other _

theorem mentions_assignAll (node other : String) (type : ValueType) (texts : List String) :
    Keeps (Mentions names) (assignAll node other type texts) :=
  keeps_assignAll (fun _ => mentions_lookUp node other) (fun _ _ _ => .modify fun _ h => h)
    (fun _ _ => mentions_write node other _) fun _ _ _ => mentions_write node other _

theorem mentions_create (parent child type : String) :
    Keeps (Mentions names) (create parent child type) :=
  (mentions_onRepository _).discard.bind fun _ _ => .modify fun _ h => h

theorem mentions_openNode (child type : Option String) (mixins : List String) :
    Keeps (Mentions names) (openNode child type mixins) :=
  keeps_openNode (keeps_current fun _ => trivial) (fun _ _ _ => keeps_openChild
    (keeps_clear fun _ _ _ => mentions_onRepository _) (keeps_ensure (mentions_create _ _))
    (.forM fun _ _ => (mentions_onRepository _).discard) (.modify fun _ h => h)) child

theorem mentioned_setWith (i : Import) (name : String) {set : String → Step Unit}
    (hset : ∀ node names, Keeps (Mentions names) (set node)) :
    (outcome (setWith name set) i).2.mentioned = including i.mentioned name := by
  cases hopened : i.opened with
  | nil => rw [outcome_setWith_of_nil hopened]
  | cons node rest =>
    rw [outcome_setWith hopened]
    split
    · rfl
    · exact (hset node (including i.mentioned name)
        { i with mentioned := including i.mentioned name } rfl).1

theorem mentioned_closeNode (i : Import) : (outcome closeNode i).2.mentioned = i.mentioned := by
  cases hopened : i.opened with
  | nil => rw [outcome_closeNode_of_nil hopened]
  | cons node rest =>
    obtain ⟨j, hj, hclosed⟩ := isClosed_closeNode hopened
    rw [hj, hclosed.mentioned]

/-- The content mentions the property that an action sets, and no other one besides. -/
theorem mem_mentioned_after (ha : a.IsPlain) (i : Import) :
    name ∈ (i.after a).mentioned ↔ name ∈ i.mentioned ∨ a.setName? = some name := by
  cases a with
  | finish => cases ha
  | wait => cases ha
  | call c =>
    cases c with
    | openNode child type mixins =>
      have hsame : (i.after (.call (.openNode child type mixins))).mentioned = i.mentioned :=
        (mentions_openNode child type mixins i rfl).1
      simp [hsame, Action.setName?]
    | closeNode =>
      have hsame : (i.after (.call .closeNode)).mentioned = i.mentioned := mentioned_closeNode i
      simp [hsame, Action.setName?]
    | setProperty other type text =>
      have hadded : (i.after (.call (.setProperty other type text))).mentioned =
          including i.mentioned other :=
        mentioned_setWith i other fun node names => mentions_assign node other type text
      simp [hadded, mem_including_iff, Action.setName?, eq_comm]
    | setProperties other type texts =>
      have hadded : (i.after (.call (.setProperties other type texts))).mentioned =
          including i.mentioned other :=
        mentioned_setWith i other fun node names => mentions_assignAll node other type texts
      simp [hadded, mem_including_iff, Action.setName?, eq_comm]
    | _ => cases ha

theorem mem_mentioned_run (hplain : ∀ a ∈ actions, a.IsPlain) (i : Import) :
    name ∈ (actions.foldl after i).mentioned ↔
      name ∈ i.mentioned ∨ ∃ a ∈ actions, a.setName? = some name := by
  induction actions generalizing i with
  | nil => simp
  | cons a actions ih =>
    obtain ⟨ha, hactions⟩ := List.forall_mem_cons.1 hplain
    rw [List.foldl_cons, ih hactions, mem_mentioned_after ha, List.exists_mem_cons_iff, or_assoc]

/-- **The content mentions just the properties that it sets,** of whichever node. -/
theorem mem_mentioned_session (hplain : ∀ a ∈ actions, a.IsPlain) :
    name ∈ (session options clock r target top actions).mentioned ↔
      ∃ a ∈ actions, a.setName? = some name := by
  have hnone : (prepared options clock r target top).mentioned = [] := by
    rw [prepared_eq]
    split <;> rfl
  rw [← foldl_prepared, mem_mentioned_run hplain, hnone]
  simp

/-! ## What a closed node loses -/

/-- **A node that is closed keeps a property just if the property is protected or the content set
one of its name before,** be it of that node or of another one. A property that waits for the node
is written instead. -/
theorem property?_closeNode (hmerge : options.propertyMerge = true)
    (hplain : ∀ a ∈ actions, a.IsPlain)
    (hopened : (session options clock r target top actions).opened = node :: rest)
    (name : String) :
    ((session options clock r target top actions).waits node name node = [] →
      (session options clock r target top (actions ++ [.call .closeNode])).repository.property?
          node name =
        if name ∈ protectedNames ∨ ∃ a ∈ actions, a.setName? = some name then
          (session options clock r target top actions).repository.property? node name
        else none) ∧
    ((session options clock r target top actions).waits node name node ≠ [] →
      ((session options clock r target top (actions ++ [.call .closeNode])).repository.property?
          node name).isSome =
        (session options clock r target top actions).repository.hasNode node) := by
  obtain ⟨j, hj, hclosed⟩ := isClosed_closeNode hopened
  have hsession : session options clock r target top (actions ++ [.call .closeNode]) = j := by
    rw [session, List.foldl_concat]
    exact congrArg Prod.snd hj
  have hoptions : (session options clock r target top actions).options = options :=
    (isContained_session options clock r target top actions).options
  rw [hsession]
  constructor
  · intro hwaits
    rw [hclosed.property node name hwaits, hoptions]
    have hmentioned : name ∈ (session options clock r target top actions).mentioned ↔
        ∃ a ∈ actions, a.setName? = some name := mem_mentioned_session hplain
    have hlost : name ∉ (session options clock r target top actions).mentioned ∧
        name ∉ protectedNames ↔
          ¬ (name ∈ protectedNames ∨ ∃ a ∈ actions, a.setName? = some name) := by
      rw [hmentioned, not_or, and_comm]
    simp only [hmerge, hlost, true_and, ite_not]
  · intro hwaits
    cases hnode : (session options clock r target top actions).repository.hasNode node with
    | true => exact hclosed.isSome_property? hnode hnode hwaits
    | false =>
      have hmissing : j.repository.hasNode node = false := (hclosed.hasNode node).trans hnode
      have hnone : j.repository.node? node = none :=
        Option.not_isSome_iff_eq_none.1 (Bool.eq_false_iff.1 hmissing)
      rw [Repository.property?, hnone]
      rfl

/-- Two nodes, one of which has properties. -/
def staleRepository : Repository :=
  Repository.run
    [ .addNode "/" "a" "nt:folder", .addNode "/" "b" "nt:folder",
      .setProperty "/a" "x" (.single (.string "old")),
      .setProperty "/a" "y" (.single (.string "old")) ]
    (.new .standard)

/-- A property of one node is set, and then the other node is opened. -/
def strayingActions : List Action :=
  [ .call (.openNode (some "b") none []), .call (.setProperty "x" .string "new"),
    .call .closeNode, .call (.openNode (some "a") none []) ]

/-- An import that merges properties, into the root of that repository. -/
def mergingSession (actions : List Action) : Import :=
  session { propertyMerge := true } 0 staleRepository "/" none actions

theorem isPlain_of_mem_strayingActions : ∀ a ∈ strayingActions, a.IsPlain := by
  simp [strayingActions, Action.IsPlain]

theorem property?_closeNode_straying :
    (mergingSession strayingActions).opened = ["/a", "/"] ∧
      (mergingSession (strayingActions ++ [.call .closeNode])).repository.property? "/a" "x" =
        some (.single (.string "old")) ∧
      (mergingSession (strayingActions ++ [.call .closeNode])).repository.property? "/a" "y" =
        none := by
  have hopened : (mergingSession strayingActions).opened = ["/a", "/"] := by decide +kernel
  have hlaw := property?_closeNode rfl isPlain_of_mem_strayingActions hopened
  exact ⟨hopened, ((hlaw "x").1 (by decide +kernel)).trans (by decide +kernel),
    ((hlaw "y").1 (by decide +kernel)).trans (by decide +kernel)⟩

/-- **What the content does not set is not always removed.** A property stays that no call set while
its node was the current one, since another node has one of its name. -/
theorem unmentioned_not_removed :
    ¬ ∀ (options : ImportOptions) (clock : Int) (r : Repository) (target node : String)
      (top : Option String) (actions before rest : List Action) (nodes : List String),
      r.Reachable → options.propertyMerge = true → (∀ a ∈ actions, a.IsPlain) →
      (session options clock r target top actions).opened = [target] →
      actions = before ++ .call .closeNode :: rest →
      (session options clock r target top before).opened = node :: nodes →
      ∀ name, ((session options clock r target top
          (before ++ [.call .closeNode])).repository.property? node name).isSome = true →
        name ∈ protectedNames ∨
          (node, name) ∈ trace declared (prepared options clock r target top) before := by
  intro hremoved
  have hplain : ∀ a ∈ strayingActions ++ [.call .closeNode], a.IsPlain :=
    List.forall_mem_append.2
      ⟨isPlain_of_mem_strayingActions, List.forall_mem_singleton.2 trivial⟩
  have hnamed := hremoved { propertyMerge := true } 0 staleRepository "/" "/a" none _
    strayingActions [] ["/"] ((Repository.Reachable.new .standard).run _) rfl hplain
    (by decide +kernel) rfl (by decide +kernel) "x" (by decide +kernel)
  exact absurd hnamed (by decide +kernel)

end ContentImport.Import
