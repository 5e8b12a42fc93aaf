import ContentImport.Proofs.Import.Undisturbed

/-!
# The properties that an action is to set

`declared` are the properties that an action is to set, and `references` those that it is to set to
references. Unless it closes a node, opens a node by its path or merges, an action leaves all
properties undisturbed that it does not declare (`undisturbed_after`).

A call for a file declares the properties of the content that it writes, and it does not write the
content if that is as new as the file.
-/

namespace ContentImport.Import

variable {owner name : String} {i j k : Import}

/-! ## Files -/

section Files

variable {start : Import} {node : String} {rest : List String}

/-- The current node of a state without open nodes, or with some. -/
theorem keeps_opened_write (l : List String) (node other : String) (property : Property) :
    Keeps (fun i => i.opened = l) (write node other property) := by
  intro i hi
  rw [outcome_write]
  cases i.repository.node? node <;> exact ⟨hi, fun _ _ => trivial⟩

theorem undisturbed_setFileProperty {other : String} (hne : (node, other) ≠ (owner, name))
    (v : Value) :
    Keeps (fun i => Undisturbed owner name start i ∧ i.opened = node :: rest)
      (setFileProperty other v) := by
  have hcurrent : Keeps (fun i => Undisturbed owner name start i ∧ i.opened = node :: rest)
      current fun path => path = node := by
    intro i hi
    rw [outcome_current hi.2]
    exact ⟨hi, fun path hpath => (Except.ok.inj hpath).symm⟩
  refine .bind hcurrent ?_
  rintro _ rfl
  refine .bind ((undisturbed_write hne _).and (keeps_opened_write _ _ _ _)) ?_
  exact fun _ _ => (isStable_undisturbed.mention other).and (.modify fun _ h => h)

/-- Writing the content of a file disturbs no other properties. -/
theorem undisturbed_writeContent {data : Except FileError Bytes}
    (hne : data.isOk = true →
      ∀ other ∈ [mediaTypeName, modifiedName, dataName], (node, other) ≠ (owner, name))
    (file fileName : String) (mediaType : Option String) (modified : Int) :
    Keeps (fun i => Undisturbed owner name start i ∧ i.opened = node :: rest)
      (writeContent file fileName data mediaType modified) := by
  refine .bind .get fun i _ => ?_
  extract_lets
  split
  · exact .throw _
  have hset : ∀ other ∈ [mediaTypeName, modifiedName, dataName], ∀ v,
      Keeps (fun i => Undisturbed owner name start i ∧ i.opened = node :: rest)
        (setFileProperty other v) :=
    fun other hother => undisturbed_setFileProperty (hne rfl other hother)
  refine .bind (hset _ (by simp) _) fun _ _ => ?_
  split
  · exact .throw _
  · exact .bind (hset _ (by simp) _) fun _ _ => hset _ (by simp) _

variable {file : String}

theorem OnlyAdds.storedModified_eq {r r' : Repository} {path : String} (h : OnlyAdds path r r')
    (content : String) : storedModified r' content = storedModified r content := by
  rw [storedModified, storedModified, h.property?_eq]

theorem OnlyAdds.refl (path : String) (r : Repository) : OnlyAdds path r r where
  node := fun _ n hn => ⟨n, hn, rfl, rfl⟩
  fresh := by
    intro q n hnone hn
    rw [hnone] at hn
    cases hn

/-- What is left once both nodes of a file are open. -/
theorem undisturbed_pushBoth {r : Repository} {content : String}
    (h : OnlyAdds content i.repository r)
    (hcontent : r.hasNode content = true) (hfile : i.repository.hasNode file = true)
    (created : List String) (owner name : String) :
    Undisturbed owner name i
      { i with repository := r, created := created, opened := content :: file :: i.opened } := by
  have hnew : ∀ q ∈ [content, file], r.hasNode q = true :=
    List.forall_mem_cons.2 ⟨hcontent, List.forall_mem_singleton.2 (h.hasNode hfile)⟩
  exact OnlyAdds.undisturbed (i := i)
    (j := { i with repository := r, created := created, opened := content :: file :: i.opened })
    h [content, file] rfl List.mem_cons_self hnew rfl rfl rfl rfl owner name

/-- A file and its content that are there are only opened. -/
theorem outcome_openStoredFile
    (hcontent : i.repository.hasNode (Path.join file contentName) = true) (modified : Int) :
    outcome (openStoredFile file modified) i =
      (.ok (i.options.overwrite ||
          decide (storedModified i.repository (Path.join file contentName) < modified)),
        { i with opened := Path.join file contentName :: file :: i.opened }) := by
  rw [openStoredFile]
  simp [push, hcontent]

/-- **Opening a file that is there and its content disturbs no property**; the content is the
current node then. -/
theorem openStoredFile_cases (hfile : i.repository.hasNode file = true) (modified : Int) :
    (∃ e, outcome (openStoredFile file modified) i = (.error e, i)) ∨
      ∃ j, outcome (openStoredFile file modified) i =
          (.ok (i.options.overwrite ||
            decide (storedModified i.repository (Path.join file contentName) < modified)), j) ∧
        j.opened = Path.join file contentName :: file :: i.opened ∧
        j.repository.hasNode (Path.join file contentName) = true ∧
        ∀ owner name, Undisturbed owner name i j := by
  cases hcontent : i.repository.hasNode (Path.join file contentName) with
  | true =>
    exact .inr ⟨_, outcome_openStoredFile hcontent modified, rfl, hcontent,
      undisturbed_pushBoth (.refl _ i.repository) hcontent hfile i.created⟩
  | false =>
    rcases i.repository.addNode_cases file contentName resourceType with
      ⟨e, hadd⟩ | ⟨r, n, -, hparent, hadd, hr⟩
    · refine .inl ⟨.repository e, ?_⟩
      rw [openStoredFile]
      simp [hcontent, outcome_discard, hadd]
    · have hadds : OnlyAdds (Path.join file contentName) i.repository r :=
        onlyAdds_of_leaf hcontent hparent rfl hr
      have hadded : r.hasNode (Path.join file contentName) = true :=
        Repository.hasNode_of_node? ((hr _).trans (if_pos rfl))
      refine .inr ⟨_, ?_, rfl, hadded,
        undisturbed_pushBoth hadds hadded hfile (i.created ++ [Path.join file contentName])⟩
      rw [← hadds.storedModified_eq, openStoredFile]
      simp [push, recordCreated, hcontent, outcome_discard, hadd]

/-- Whether a call for a file writes its content, if existing nodes are not overwritten. -/
def writesFile (i : Import) (file : String) (modified : Int) : Bool :=
  !i.repository.hasNode file ||
    decide (storedModified i.repository (Path.join file contentName) < modified)

theorem outcome_openNode_some (hopened : i.opened = node :: rest) (child : String)
    (type : Option String) (mixins : List String) :
    outcome (openNode (some child) type mixins) i =
      outcome (openChild node child type mixins) i := by
  simp [outcome_openNode, opening, hopened]

/-- **A call for a file disturbs no other properties than those of the content that it writes.** -/
theorem undisturbed_openFile (hover : i.options.overwrite = false)
    (hopened : i.opened = node :: rest)
    (fileName : String) {data : Except FileError Bytes} (mediaType : Option String) (modified : Int)
    (hne : writesFile i (Path.join node (Text.afterLast '/' fileName)) modified = true →
      data.isOk = true → ∀ other ∈ [mediaTypeName, modifiedName, dataName],
        (Path.join (Path.join node (Text.afterLast '/' fileName)) contentName, other) ≠
          (owner, name)) :
    Undisturbed owner name i (outcome (openFile fileName data mediaType modified) i).2 := by
  set file := Path.join node (Text.afterLast '/' fileName) with hfile
  rw [openFile, outcome_bind, outcome_current hopened]
  dsimp only
  rw [outcome_bind, outcome_get]
  dsimp only
  rw [← hfile]
  split
  · next hnode =>
    rw [outcome_bind]
    rcases openStoredFile_cases hnode modified with ⟨e, hfail⟩ | ⟨j, hok, hj, -, hspared⟩
    · rw [hfail]
      exact .refl owner name i
    · rw [hok, hover, Bool.false_or]
      dsimp only
      split
      · next hless =>
        have hwrites : writesFile i file modified = true := by
          rw [writesFile, hless, Bool.or_true]
        exact (undisturbed_writeContent (hne hwrites) file (Text.afterLast '/' fileName) mediaType
          modified j ⟨hspared owner name, hj⟩).1.1
      · exact hspared owner name
  · next hnode =>
    have hwrites : writesFile i file modified = true := by
      rw [writesFile, Bool.eq_false_iff.2 hnode]
      rfl
    rw [outcome_bind, outcome_openNode_some hopened]
    rcases openChild_cases hover node (Text.afterLast '/' fileName) (some fileType) [] with
      ⟨e, hfail⟩ | ⟨j, hok, hj, hspared⟩
    · rw [hfail]
      exact .refl owner name i
    rw [hok]
    dsimp only
    have hover' : j.options.overwrite = false := by
      rw [(hspared owner name).options]
      exact hover
    rw [outcome_bind, outcome_openNode_some hj]
    rcases openChild_cases hover' file contentName (some resourceType) [] with
      ⟨e, hfail⟩ | ⟨k, hok, hk, hspared'⟩
    · rw [hfail]
      exact hspared owner name
    rw [hok]
    have hboth := (hspared owner name).trans (hspared' owner name)
    exact (undisturbed_writeContent (hne hwrites) file (Text.afterLast '/' fileName) mediaType
      modified k ⟨hboth, hk⟩).1.1

end Files

/-! ## Actions -/

/-- The properties that an action is to set, whether it succeeds or not. A call for a file is to set
those of its content, if it replaces the content and the data can be read. -/
def declared (i : Import) : Action → List (String × String)
  | .call (.setProperty name _ _) | .call (.setProperties name _ _) =>
    (i.opened.head?.map (·, name)).toList
  | .call (.openFile name data _ modified) =>
    match i.opened with
    | [] => []
    | node :: _ =>
      let file := Path.join node (Text.afterLast '/' name)
      if writesFile i file modified && data.isOk then
        [mediaTypeName, modifiedName, dataName].map (Path.join file contentName, ·)
      else []
  | _ => []

/-- The properties that an action is to set to references. -/
def references (i : Import) : Action → List (String × String)
  | .call (.setProperty name .reference _) | .call (.setProperties name .reference _) =>
    (i.opened.head?.map (·, name)).toList
  | _ => []

/-- An action opens no node by its path. -/
def Action.OpensByName : Action → Prop
  | .call (.openPath _ _) => False
  | _ => True

theorem undisturbed_openNode (hover : i.options.overwrite = false) (child type : Option String)
    (mixins : List String) :
    Undisturbed owner name i (outcome (openNode child type mixins) i).2 := by
  rw [outcome_openNode]
  split
  · exact .refl owner name i
  · exact .refl owner name i
  next child _ =>
  rcases openChild_cases hover child.1 child.2 type mixins with ⟨e, hfail⟩ | ⟨j, hok, -, hspared⟩
  · rw [hfail]
    exact .refl owner name i
  · rw [hok]
    exact hspared owner name

theorem undisturbed_setWith {other : String} {set : String → Step Unit}
    (hset : ∀ node rest, i.opened = node :: rest → Keeps (Undisturbed owner name i) (set node)) :
    Undisturbed owner name i (outcome (setWith other set) i).2 := by
  have hmention := (isStable_undisturbed.mention other i (.refl owner name i)).1
  cases hopened : i.opened with
  | nil =>
    rw [outcome_setWith_of_nil hopened]
    exact hmention
  | cons node rest =>
    rw [outcome_setWith hopened]
    split
    · exact hmention
    · exact (hset node rest hopened _ hmention).1

theorem undisturbed_setProperty {other : String} {type : ValueType} {text : String}
    (hdeclared : (owner, name) ∉ (i.opened.head?.map (·, other)).toList)
    (hreferences : type = .reference →
      ∀ p ∈ (i.opened.head?.map (·, other)).toList,
        standsFor owner name (Path.join p.1 p.2) = false) :
    Undisturbed owner name i (outcome (setProperty other type text) i).2 := by
  rw [setProperty_eq]
  refine undisturbed_setWith fun node rest hopened => ?_
  rw [hopened] at hdeclared hreferences
  have hne : (node, other) ≠ (owner, name) := by simpa [eq_comm] using hdeclared
  have hpath : type = .reference → standsFor owner name (Path.join node other) = false := by
    simpa using hreferences
  exact undisturbed_assign hne hpath text

theorem undisturbed_setProperties (hself : standsFor owner name (Path.join owner name) = true)
    {other : String} {type : ValueType} {texts : List String}
    (hdeclared : (owner, name) ∉ (i.opened.head?.map (·, other)).toList)
    (hreferences : type = .reference →
      ∀ p ∈ (i.opened.head?.map (·, other)).toList,
        standsFor owner name (Path.join p.1 p.2) = false) :
    Undisturbed owner name i (outcome (setProperties other type texts) i).2 := by
  rw [setProperties_eq]
  refine undisturbed_setWith fun node rest hopened => ?_
  rw [hopened] at hdeclared hreferences
  have hne : (node, other) ≠ (owner, name) := by simpa [eq_comm] using hdeclared
  have hpath : type = .reference → standsFor owner name (Path.join node other) = false := by
    simpa using hreferences
  exact undisturbed_assignAll hself hne hpath texts

/-- **An action that closes no node leaves a property alone** that it is not to set, provided that
it does not set another property to references whose path stands for this one. -/
theorem undisturbed_after (hself : standsFor owner name (Path.join owner name) = true)
    (hover : i.options.overwrite = false) (hmerge : i.options.merge = false)
    {a : Action} (hopens : a.OpensByName) (hclose : a ≠ .call .closeNode)
    (hdeclared : (owner, name) ∉ i.declared a)
    (hreferences : ∀ p ∈ i.references a, standsFor owner name (Path.join p.1 p.2) = false) :
    Undisturbed owner name i (i.after a) := by
  have hrefl : Undisturbed owner name i i := .refl owner name i
  cases a with
  | finish =>
    have hfinish : outcome finish i = (.ok (), i) := by simp [finish, hmerge]
    rw [after, Action.step, hfinish]
    exact hrefl
  | wait => exact ⟨hrefl.of_eq rfl rfl rfl fun _ hm => hm, rfl, rfl, fun _ => rfl⟩
  | call c =>
    cases c with
    | openNode child type mixins => exact undisturbed_openNode hover child type mixins
    | closeNode => exact absurd rfl hclose
    | setProperty other type text =>
      refine undisturbed_setProperty hdeclared ?_
      rintro rfl
      exact hreferences
    | setProperties other type texts =>
      refine undisturbed_setProperties hself hdeclared ?_
      rintro rfl
      exact hreferences
    | openFile fileName data mediaType modified =>
      cases hopened : i.opened with
      | nil =>
        rw [after, Action.step, perform, openFile, outcome_bind, outcome_current_of_nil hopened]
        exact hrefl
      | cons node rest =>
        refine undisturbed_openFile hover hopened fileName mediaType modified ?_
        intro hwrites hdata other hother heq
        refine hdeclared ?_
        simp only [declared, hopened, hwrites, hdata]
        exact List.mem_map.2 ⟨other, hother, heq⟩
    | openPath => cases hopens
    | createUser id password extra =>
      exact (isStable_undisturbed.createUser id password extra i hrefl).1
    | createGroup id members extra =>
      exact (isStable_undisturbed.createGroup id members extra i hrefl).1
    | setEntries =>
      exact (isStable_undisturbed.setEntries (keeps_current fun _ => trivial) i hrefl).1

end ContentImport.Import
