import ContentImport.Proofs.Import.Assigned

/-!
# References that last

Nodes keep their identifiers while a document is imported, unless existing nodes are overwritten or
merged. So a reference that an import writes is that of a node in the end, or else the import itself
has removed the node (`refers_load`).

* `Removes` says which nodes an action may remove. All others keep their identifiers
  (`identifier_after_cases`).
* `Loader.actions` are the actions of a document that is loaded.
* References to nodes that merging removes, or that are overwritten later on, are left behind
  (`references_left`).
-/

namespace ContentImport.Import

variable {i j start : Import} {node path id parent name : String}

/-! ## What an action may remove -/

/-- The child that a call opens by name. -/
def opens? (i : Import) (child : Option String) : Option String :=
  match i.opened, child with
  | parent :: _, some name => some (Path.join parent name)
  | [parent], none => i.defaultName.map (Path.join parent)
  | _, _ => none

/-- An action may remove the node at a path: it opens the node or one above it by name and existing
nodes are overwritten, or it ends a document and merging drops the node or one above it. -/
def Removes (i : Import) : Action → String → Prop
  | .call (.openNode child _ _), path =>
    i.options.overwrite = true ∧ ∃ node, i.opens? child = some node ∧ Path.isWithin path node = true
  | .finish, path => i.options.merge = true ∧ ∃ p, i.IsDropped p ∧ Path.isWithin path p = true
  | _, _ => False

theorem openNode_cases (i : Import) (child type : Option String) (mixins : List String) :
    (outcome (openNode child type mixins) i).2 = i ∨
      ∃ parent name, i.opens? child = some (Path.join parent name) ∧
        outcome (openNode child type mixins) i =
          outcome (openChild parent name type mixins) i := by
  have hopens : ∀ parent name, i.opening child = .ok (some (parent, name)) →
      i.opens? child = some (Path.join parent name) := by
    intro parent name hopening
    unfold opening at hopening
    split at hopening
    · cases hopening
    · next hopened =>
      obtain ⟨rfl, rfl⟩ := Prod.mk.inj (Option.some.inj (Except.ok.inj hopening))
      simp [opens?, hopened]
    · next hopened =>
      obtain ⟨_, hname, heq⟩ := Option.map_eq_some_iff.1 (Except.ok.inj hopening)
      obtain ⟨rfl, rfl⟩ := Prod.mk.inj heq
      simp [opens?, hopened, hname]
    · cases hopening
  rw [outcome_openNode]
  split
  · exact .inl rfl
  · exact .inl rfl
  · next child hopening => exact .inr ⟨child.1, child.2, hopens _ _ hopening, rfl⟩

/-! ## Identifiers that are kept -/

theorem keepsIdentifiers_writeContent (file name : String) (data : Except FileError Bytes)
    (mediaType : Option String) (modified : Int) :
    Keeps (KeepsIdentifiers start) (writeContent file name data mediaType modified) :=
  isStable_keepsIdentifiers.writeContent (fun _ _ _ => keeps_current fun _ => trivial) file name
    data mediaType modified

theorem KeepsOutside.mono (h : KeepsOutside path i j) {q : String}
    (hpath : Path.isWithin path q = true) : KeepsOutside q i j := by
  intro q' id hout hid
  refine h q' id ?_ hid
  rw [Bool.eq_false_iff] at hout ⊢
  exact fun hwithin => hout (Path.isWithin_trans hwithin hpath)

/-- A file that is opened as a new one changes nothing but within the file. -/
theorem keepsOutside_openNewFile {rest : List String} (hopened : i.opened = parent :: rest)
    (name : String) (data : Except FileError Bytes) (mediaType : Option String) (modified : Int) :
    KeepsOutside (Path.join parent name) i (outcome (do
      openNode (some name) (some fileType) []
      openNode (some contentName) (some resourceType) []
      writeContent (Path.join parent name) name data mediaType modified) i).2 := by
  have hrefl : ∀ path i, KeepsOutside path i i := fun _ _ _ _ _ hid => hid
  have hfile := (keepsOutside_openChild parent name (some fileType) [] i (hrefl _ i)).1
  rw [outcome_bind, outcome_openNode_some hopened]
  rcases hopen : outcome (openChild parent name (some fileType) []) i with ⟨e | u, j⟩
  · rwa [hopen] at hfile
  rw [hopen] at hfile
  have hopened' := (openChild_ok hopen).opened
  have hcontent := (keepsOutside_openChild (Path.join parent name) contentName (some resourceType)
    [] j (hrefl _ j)).1
  dsimp only
  rw [outcome_bind, outcome_openNode_some hopened']
  rcases hopen' :
    outcome (openChild (Path.join parent name) contentName (some resourceType) []) j with
    ⟨e | u, k⟩
  · rw [hopen'] at hcontent
    exact hfile.trans (hcontent.mono (Path.isWithin_join_self _ _))
  rw [hopen'] at hcontent
  have hwritten := (keepsIdentifiers_writeContent (Path.join parent name) name data mediaType
    modified k fun _ _ hid => hid).1
  exact (hfile.trans (hcontent.mono (Path.isWithin_join_self _ _))).trans (hwritten.outside _)

/-- Opening a file removes nothing: there is nothing below a file that is new. -/
theorem keepsIdentifiers_openFile (htree : i.repository.IsTree) (name : String)
    (data : Except FileError Bytes) (mediaType : Option String) (modified : Int) :
    KeepsIdentifiers i (outcome (openFile name data mediaType modified) i).2 := by
  have hrefl : KeepsIdentifiers i i := fun _ _ hid => hid
  cases hopened : i.opened with
  | nil =>
    rw [openFile, outcome_bind, outcome_current_of_nil hopened]
    exact hrefl
  | cons parent rest =>
    rw [openFile, outcome_bind_of_ok (outcome_current hopened), outcome_bind_of_ok (outcome_get i)]
    split
    · have hstored : Keeps (KeepsIdentifiers i) (do
          if ← openStoredFile (Path.join parent (Text.afterLast '/' name)) modified then
            writeContent (Path.join parent (Text.afterLast '/' name)) (Text.afterLast '/' name) data
              mediaType modified) := by
        refine .bind (isStable_keepsIdentifiers.openStoredFile (fun _ _ _ => trivial)
          (fun _ _ h => h) _ modified) fun replaces _ => ?_
        split
        · exact keepsIdentifiers_writeContent _ _ data mediaType modified
        · exact .pure trivial
      exact (hstored i hrefl).1
    · next hfile =>
      intro q id hid
      refine keepsOutside_openNewFile hopened _ data mediaType modified q id ?_ hid
      rw [Bool.eq_false_iff]
      intro hwithin
      have hnode : i.repository.hasNode q = true := by rw [← isSome_identifier?, hid]; rfl
      exact hfile (htree.hasNode_of_isWithin (Path.join_ne_empty _ _) hnode hwithin)

/-! ## Merging -/

/-- What remains after a removal has the identifier that it had. -/
theorem identifier_of_after_removeNode {r : Repository} {q : String}
    (h : (((Repository.Operation.removeNode path).after r).node? q).map Node.identifier = some id) :
    (r.node? q).map Node.identifier = some id := by
  have hstep := (Repository.Operation.removeNode path).step r
  generalize (Repository.Operation.removeNode path).after r = r' at hstep h
  have houtside : ((r.nodes.filter fun k _ => !Path.isWithin k path).get? q).map Node.identifier =
      some id → (r.node? q).map Node.identifier = some id := by
    intro h
    rw [Path.get?_outside] at h
    split at h
    · cases h
    · exact h
  cases hstep with
  | unchanged => exact h
  | removeNode _ _ hn =>
    rw [Repository.node?, Table.get?_insert] at h
    split at h
    · next hparent =>
      refine houtside ?_
      rw [← hparent, hn]
      exact h
    · exact houtside h
  | removeOrphan => exact houtside h

theorem identifier_of_finish {q : String}
    (h : (outcome finish i).2.identifier? q = some id) : i.identifier? q = some id := by
  have hquietly : ∀ path, Keeps (fun j => KeepsIdentifiers j i) (removeQuietly path) := by
    intro path j hj
    rw [outcome_removeQuietly]
    exact ⟨fun q id hid => hj q id (identifier_of_after_removeNode hid), fun _ _ => trivial⟩
  have hfinish : Keeps (fun j => KeepsIdentifiers j i) finish :=
    keeps_finish fun _ _ _ path => hquietly path
  exact (hfinish i fun _ _ hid => hid).1 q id h

/-! ## Actions -/

theorem identifier_after_finish (htree : i.repository.IsTree)
    (hid : i.identifier? path = some id) :
    (i.after .finish).identifier? path = some id ∨ i.Removes .finish path := by
  cases hmerge : i.options.merge with
  | false =>
    have hfinish : outcome finish i = (.ok (), i) := by simp [finish, hmerge]
    rw [after, Action.step, hfinish]
    exact .inl hid
  | true =>
    by_cases hdropped : ∃ p, i.IsDropped p ∧ Path.isWithin path p = true
    · exact .inr ⟨hmerge, hdropped⟩
    · left
      have hnode : i.repository.hasNode path = true := by rw [← isSome_identifier?, hid]; rfl
      have hleft := ((isPruned_finish htree hmerge).hasNode path).2 ⟨hnode, fun p hp =>
        Bool.eq_false_iff.2 fun hwithin => hdropped ⟨p, hp, hwithin⟩⟩
      rw [← isSome_identifier?, Option.isSome_iff_exists] at hleft
      obtain ⟨id', hid'⟩ := hleft
      obtain rfl := Option.some.inj (hid.symm.trans (identifier_of_finish hid'))
      exact hid'

theorem identifier_after_openNode (hid : i.identifier? path = some id)
    (child type : Option String) (mixins : List String) :
    (i.after (.call (.openNode child type mixins))).identifier? path = some id ∨
      i.Removes (.call (.openNode child type mixins)) path := by
  rw [after, Action.step, perform]
  rcases openNode_cases i child type mixins with hsame | ⟨parent, name, hopens, hchild⟩
  · rw [hsame]
    exact .inl hid
  rw [hchild]
  cases hover : i.options.overwrite with
  | false => exact .inl (keepsIdentifiers_openChild hover parent name type mixins path id hid)
  | true =>
    cases hwithin : Path.isWithin path (Path.join parent name) with
    | true => exact .inr ⟨hover, _, hopens, hwithin⟩
    | false =>
      exact .inl ((keepsOutside_openChild parent name type mixins i fun _ _ _ hid => hid).1 path id
        hwithin hid)

/-- **An action keeps the identifiers of all nodes that it may not remove.** -/
theorem identifier_after_cases (htree : i.repository.IsTree) (hid : i.identifier? path = some id)
    (a : Action) : (i.after a).identifier? path = some id ∨ i.Removes a path := by
  have hkeeps : ∀ {α : Type} {c : Step α}, Keeps (KeepsIdentifiers i) c →
      (outcome c i).2.identifier? path = some id :=
    fun hc => (hc i fun _ _ hid => hid).1 path id hid
  cases a with
  | wait => exact .inl hid
  | finish => exact identifier_after_finish htree hid
  | call c =>
    cases c with
    | openNode child type mixins => exact identifier_after_openNode hid child type mixins
    | openFile name data mediaType modified =>
      exact .inl (keepsIdentifiers_openFile htree name data mediaType modified path id hid)
    | closeNode => exact .inl (hkeeps keepsIdentifiers_closeNode)
    | openPath q type =>
      have hopen : Keeps (KeepsIdentifiers i) (openPath q type) :=
        isStable_keepsIdentifiers.openPath (fun _ _ _ => trivial) (fun _ _ h => h) q type
      exact .inl (hkeeps hopen.discard)
    | setProperty name type text =>
      exact .inl (hkeeps (SameTree.keeps fun _ => sameTree_setProperty name type text))
    | setProperties name type texts =>
      exact .inl (hkeeps (SameTree.keeps fun _ => sameTree_setProperties name type texts))
    | createUser id password extra =>
      exact .inl (hkeeps (isStable_keepsIdentifiers.createUser id password extra))
    | createGroup id members extra =>
      exact .inl (hkeeps (isStable_keepsIdentifiers.createGroup id members extra))
    | setEntries =>
      exact .inl (hkeeps (isStable_keepsIdentifiers.setEntries (keeps_current fun _ => trivial)))

/-- In the course of actions a node loses its identifier if one of them removes it. -/
theorem identifier_foldl_after_cases {target : String} (hstart : start.repository.Reachable)
    (hi : IsContained target start i) (hid : i.identifier? path = some id) (actions : List Action) :
    (actions.foldl after i).identifier? path = some id ∨
      ∃ before a rest, actions = before ++ a :: rest ∧
        (before.foldl after i).identifier? path = some id ∧
        (before.foldl after i).Removes a path ∧
        ((before.foldl after i).after a).identifier? path ≠ some id := by
  induction actions generalizing i with
  | nil => exact .inl hid
  | cons a actions ih =>
    by_cases hkept : (i.after a).identifier? path = some id
    · refine (ih (hi.after a) hkept).imp_right ?_
      rintro ⟨before, b, rest, rfl, hremoved⟩
      exact ⟨a :: before, b, rest, rfl, hremoved⟩
    · have htree := (hi.repository.reachable hstart).isTree
      exact .inr ⟨[], a, actions, rfl, hid, (identifier_after_cases htree hid a).resolve_left hkept,
        hkept⟩

theorem fst_outcome_finish (i : Import) : (outcome finish i).1 = .ok () := by
  cases hmerge : i.options.merge with
  | false => simp [finish, hmerge]
  | true => rw [outcome_finish hmerge, outcome_removeOthers]

end ContentImport.Import

namespace ContentImport.Loader

open Import (prepared trace assigned)

variable {l : Loader} {clock : Int} {reader : DocumentReader} {s : Source} {target : String}
  {name : Option String} {r : Repository} {created : List String} {owner pname id : String}
  {p : Property}

/-! ## Documents -/

/-- The actions of a document: the calls of its reader, and finishing it. -/
def actions (reader : DocumentReader) (s : Source) (r : Repository) : List Import.Action :=
  (reader.script r.restrictions s).calls.map .call ++ [.finish]

/-- The actions of a document that is loaded do not fail. -/
theorem exists_outcome_actions
    (hload : (outcome (l.load clock reader s target name) r).1 = .ok created) :
    ∃ j, outcome ((actions reader s r).forM Import.Action.step)
        (prepared l.options clock r target name) = (.ok (), j) ∧
      (outcome (l.load clock reader s target name) r).2 = j.repository := by
  obtain ⟨i, htarget, hrun, hleft⟩ := exists_run_of_load hload
  obtain ⟨_, k, hcalls, hresult⟩ := outcome_bind_eq_ok hrun
  have hk : k = i := by
    split at hresult
    · exact congrArg Prod.snd hresult
    · cases hresult
  have hactions : (actions reader s r).forM Import.Action.step =
      (do (reader.script r.restrictions s).calls.forM Import.perform; Import.finish) := by
    change forM (_ ++ [Import.Action.finish]) Import.Action.step = _
    rw [List.forM_append, List.forM_map, List.forM_cons]
    exact congrArg _ (funext fun _ => bind_pure _)
  refine ⟨(outcome Import.finish i).2, ?_, hleft⟩
  rw [hactions, Import.prepared_eq, if_pos htarget, outcome_bind_of_ok hcalls, hk]
  exact Prod.ext (Import.fst_outcome_finish i) rfl

/-- A load writes a reference if one of its actions writes references to the property, or if the
property did not have the reference before. -/
def WritesReference (l : Loader) (clock : Int) (reader : DocumentReader) (s : Source)
    (target : String) (name : Option String) (r : Repository) (owner pname id : String) : Prop :=
  (owner, pname) ∈ trace assigned (prepared l.options clock r target name) (actions reader s r) ∨
    ∀ p, r.property? owner pname = some p → ¬ p.Refers id

/-- An identifier is that of a node at some moment of a load. -/
def Occurs (l : Loader) (clock : Int) (reader : DocumentReader) (s : Source) (target : String)
    (name : Option String) (r : Repository) (id : String) : Prop :=
  ∃ before rest path, actions reader s r = before ++ rest ∧
    (before.foldl Import.after (prepared l.options clock r target name)).identifier? path = some id

/-- The references that a load writes are identifiers of nodes at some moment of it. -/
theorem occurs_of_writesReference (hr : r.Reachable)
    (hload : (outcome (l.load clock reader s target name) r).1 = .ok created)
    (hwrites : l.WritesReference clock reader s target name r owner pname id)
    (hp : (outcome (l.load clock reader s target name) r).2.property? owner pname = some p)
    (hid : p.Refers id) : l.Occurs clock reader s target name r id := by
  obtain ⟨j, hactions, hleft⟩ := exists_outcome_actions hload
  rw [hleft] at hp
  have hrepository : (prepared l.options clock r target name).repository = r := by
    rw [Import.prepared_eq]
    split <;> rfl
  have hpending : (prepared l.options clock r target name).pending = .empty := by
    rw [Import.prepared_eq]
    split <;> rfl
  have hcourse : Import.IsCourse (l.Occurs clock reader s target name r)
      (prepared l.options clock r target name) (actions reader s r) :=
    ⟨fun before rest heq path id hid => ⟨before, rest, path, heq, hid⟩,
      fun before _ _ _ => Import.isWithin_root_of_mem_opened hr before⟩
  have hstart : ∀ allowed : String → String → String → Prop,
      (∀ q m p, r.property? q m = some p → ∀ id, p.Refers id → allowed q m id) →
      Import.IsSourced allowed (l.Occurs clock reader s target name r)
        (prepared l.options clock r target name) := by
    intro allowed hallowed
    refine ⟨hrepository.symm ▸ hallowed, fun path standIns h => ?_⟩
    rw [hpending] at h
    cases h
  rcases hwrites with hassigned | hnew
  · exact Import.onlyKnown_of_trace (fun _ _ _ _ => trivial) (hstart (fun _ _ _ => True)
      fun _ _ _ _ _ _ => trivial) hcourse hassigned hactions p hp id hid
  · -- references that were there before are allowed to remain
    have hlast := (hstart (fun q m id => l.Occurs clock reader s target name r id ∨
      ∃ p, r.property? q m = some p ∧ p.Refers id)
      fun _ _ p hp _ hid => .inr ⟨p, hp, hid⟩).foldl_after (fun _ _ _ => .inl) hcourse
    rw [Import.foldl_after_of_ok hactions] at hlast
    refine (hlast.held owner pname p hp id hid).resolve_right ?_
    rintro ⟨p', hp', hid'⟩
    exact hnew p' hp' hid'

/-- **References that a load writes last, unless the load removes what they refer to.** In the end
such a reference is the identifier of a node, or else there is an action of the load that removed
the node that had it: with the option to overwrite by opening it or one above it by name, or with
the option to merge by dropping it or one above it at the end. -/
theorem refers_load (hr : r.Reachable)
    (hload : (outcome (l.load clock reader s target name) r).1 = .ok created)
    (hwrites : l.WritesReference clock reader s target name r owner pname id)
    (hp : (outcome (l.load clock reader s target name) r).2.property? owner pname = some p)
    (hid : p.Refers id) :
    (∃ path n, (outcome (l.load clock reader s target name) r).2.node? path = some n ∧
      n.identifier = id) ∨
    ∃ before a rest path, actions reader s r = before ++ a :: rest ∧
      let i := before.foldl Import.after (prepared l.options clock r target name)
      i.identifier? path = some id ∧ i.Removes a path ∧ (i.after a).identifier? path ≠ some id := by
  obtain ⟨before, rest, path, heq, hpath⟩ := occurs_of_writesReference hr hload hwrites hp hid
  obtain ⟨j, hactions, hleft⟩ := exists_outcome_actions hload
  have hcontained := (Import.contained_prepare name _
    (Import.isContained_new l.options clock r target)).1.foldl_after before
  rcases Import.identifier_foldl_after_cases hr hcontained hpath rest with
    hlast | ⟨between, a, rest', rfl, hremoved⟩
  · left
    rw [← List.foldl_append, ← heq] at hlast
    have hj : j.identifier? path = some id := by
      rw [← Import.foldl_after_of_ok hactions]
      exact hlast
    obtain ⟨n, hn, hidentifier⟩ := Option.map_eq_some_iff.1 hj
    exact ⟨path, n, hleft ▸ hn, hidentifier⟩
  · right
    refine ⟨before ++ between, a, rest', path, by rw [heq, List.append_assoc], ?_⟩
    rw [List.foldl_append]
    exact hremoved

/-- A document of JSON with a text. -/
def textSource (text : String) : Source :=
  { bytes := .ok (Utf8.encode text), origin := ⟨Table.empty, none, 0⟩ }

/-- What loading the document below the root returns and leaves. -/
def textLoad (l : Loader) (text : String) (name : Option String) (r : Repository) :
    Except ImportError (List String) × Repository :=
  outcome (l.load 0 (.ofFormat .json) (textSource text) "/" name) r

/-- A node with a reference to a child that comes after it. -/
def childText : String := "\x7b\"jcr:reference:ref\":\"t\",\"t\":\x7b\x7d\x7d"

theorem refers_load_childText :
    (Loader.ofConfig {}).WritesReference 0 (.ofFormat .json) (textSource childText) "/" (some "x")
        (.new .standard) "/x" "ref" (Repository.identifier 2) ∧
      (textLoad (.ofConfig {}) childText (some "x") (.new .standard)).2.property? "/x" "ref" =
        some (.single (.reference (Repository.identifier 2))) ∧
      ((∃ path n, (textLoad (.ofConfig {}) childText (some "x") (.new .standard)).2.node? path =
          some n ∧ n.identifier = Repository.identifier 2) ∨
        ∃ before a rest path,
          actions (.ofFormat .json) (textSource childText) (.new .standard) = before ++ a :: rest ∧
          let i := before.foldl Import.after (prepared {} 0 (.new .standard) "/" (some "x"))
          i.identifier? path = some (Repository.identifier 2) ∧ i.Removes a path ∧
            (i.after a).identifier? path ≠ some (Repository.identifier 2)) := by
  have hload : (textLoad (.ofConfig {}) childText (some "x") (.new .standard)).1 =
      .ok ["/x", "/x/t"] := by
    decide +kernel
  have hwrites : (Loader.ofConfig {}).WritesReference 0 (.ofFormat .json) (textSource childText) "/"
      (some "x") (.new .standard) "/x" "ref" (Repository.identifier 2) :=
    .inl (by decide +kernel)
  have hproperty : (textLoad (.ofConfig {}) childText (some "x") (.new .standard)).2.property?
      "/x" "ref" = some (.single (.reference (Repository.identifier 2))) := by
    decide +kernel
  exact ⟨hwrites, hproperty, refers_load (.new .standard) hload hwrites hproperty rfl⟩

/-- All references that a loader writes are identifiers of nodes in the end. -/
def KeepsReferences (l : Loader) : Prop :=
  ∀ (clock : Int) (reader : DocumentReader) (s : Source) (target : String) (name : Option String)
    (r : Repository) (created : List String) (owner pname id : String) (p : Property),
    r.Reachable → (outcome (l.load clock reader s target name) r).1 = .ok created →
    l.WritesReference clock reader s target name r owner pname id →
    (outcome (l.load clock reader s target name) r).2.property? owner pname = some p →
    p.Refers id →
    ∃ path n, (outcome (l.load clock reader s target name) r).2.node? path = some n ∧
      n.identifier = id

/-- A loader does not keep references if a node has another identifier in the end. -/
theorem not_keepsReferences {text : String} (hr : r.Reachable)
    (hload : (textLoad l text name r).1 = .ok created)
    (hassigned : (owner, pname) ∈ trace assigned (prepared l.options 0 r "/" name)
      (actions (.ofFormat .json) (textSource text) r))
    (hp : (textLoad l text name r).2.property? owner pname = some (.single (.reference id)))
    (hgone : ∀ row ∈ (textLoad l text name r).2.nodes.rows, row.2.identifier ≠ id) :
    ¬ l.KeepsReferences := by
  intro hkeeps
  obtain ⟨path, n, hn, hidentifier⟩ := hkeeps 0 _ _ "/" name r created owner pname id _ hr hload
    (.inl hassigned) hp rfl
  exact hgone (path, n) (Table.get?_eq_some_iff.1 hn) hidentifier

/-- A repository with a node below the root. -/
def nodeRepository : Repository := Repository.run [.addNode "/" "t" "t"] (.new .standard)

theorem reachable_nodeRepository : nodeRepository.Reachable :=
  (Repository.Reachable.new .standard).run _

/-- A node with a reference to a sibling. -/
def siblingText : String := "\x7b\"jcr:reference:ref\":\"../t\"\x7d"

/-- A loader that overwrites nodes. -/
def overwriting : Loader := .ofConfig { options := { overwrite := true } }

/-- **Not all references last,** with either option. A sibling that a new node refers to is dropped
when the document ends; and a child that the target had before the document refers to it is replaced
when the document comes to it. -/
theorem references_left :
    (¬ ∀ l : Loader, l.options.overwrite = false → l.KeepsReferences) ∧
      ¬ ∀ l : Loader, l.options.merge = false → l.KeepsReferences := by
  constructor
  · intro hkeeps
    have hload : (textLoad merging siblingText (some "x") nodeRepository).1 = .ok ["/x"] := by
      decide +kernel
    have hassigned : ("/x", "ref") ∈
        trace assigned (prepared merging.options 0 nodeRepository "/" (some "x"))
          (actions (.ofFormat .json) (textSource siblingText) nodeRepository) := by
      decide +kernel
    have hproperty :
        (textLoad merging siblingText (some "x") nodeRepository).2.property? "/x" "ref" =
          some (.single (.reference (Repository.identifier 1))) := by
      decide +kernel
    exact not_keepsReferences reachable_nodeRepository hload hassigned hproperty (by decide +kernel)
      (hkeeps merging rfl)
  · intro hkeeps
    have hload : (textLoad overwriting childText none nodeRepository).1 = .ok ["/t"] := by
      decide +kernel
    have hassigned : ("/", "ref") ∈
        trace assigned (prepared overwriting.options 0 nodeRepository "/" none)
          (actions (.ofFormat .json) (textSource childText) nodeRepository) := by
      decide +kernel
    have hproperty : (textLoad overwriting childText none nodeRepository).2.property? "/" "ref" =
        some (.single (.reference (Repository.identifier 1))) := by
      decide +kernel
    exact not_keepsReferences reachable_nodeRepository hload hassigned hproperty (by decide +kernel)
      (hkeeps overwriting rfl)

end ContentImport.Loader
