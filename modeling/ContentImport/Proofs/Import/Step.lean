import ContentImport.Proofs.Import.Containment

/-!
# Outcomes of the importer's steps

What the steps of an import return and leave from a given state.

* The calls that set a property either keep one that was there before, or assign the property
  (`outcome_setWith`). One that the current node does not have is assigned.
* `openChild_cases` says all that opening a child can do, unless existing nodes are overwritten.
* A script is carried out by its parts (`run_bind`).
-/

namespace ContentImport

namespace Repository

theorem hasNode_of_node? {r : Repository} {path : String} {n : Node} (h : r.node? path = some n) :
    r.hasNode path = true :=
  Option.isSome_iff_exists.2 ⟨n, h⟩

theorem exists_node?_of_hasNode {r : Repository} {path : String} (h : r.hasNode path = true) :
    ∃ n, r.node? path = some n :=
  Option.isSome_iff_exists.1 h

/-- A node is added as a leaf, or nothing is done. -/
theorem addNode_cases (r : Repository) (parent name type : String) :
    (∃ e, outcome (addNode parent name type) r = (.error e, r)) ∨
      ∃ r' n, Path.isName name = true ∧ r.node? parent = some n ∧
        outcome (addNode parent name type) r = (.ok (Path.join parent name), r') ∧
        ∀ q, r'.node? q =
          if Path.join parent name = q then some { identifier := identifier r.serial, type := type }
          else if parent = q then some { n with children := n.children ++ [name] }
          else r.node? q := by
  rw [outcome_addNode]
  by_cases hname : Path.isName name = true
  · by_cases hnew : r.hasNode (Path.join parent name) = true
    · exact .inl ⟨_, by simp [hname, hnew]; rfl⟩
    · cases hparent : r.node? parent with
      | none => exact .inl ⟨_, by simp [hname, hnew]; rfl⟩
      | some n =>
        refine .inr ⟨_, n, hname, rfl, by simp only [hname, hnew]; rfl, fun q => ?_⟩
        exact (Table.get?_insert ..).trans (congrArg (ite _ _) (Table.get?_insert ..))
  · exact .inl ⟨_, by simp [hname]; rfl⟩

end Repository

namespace Import

variable {i : Import} {node name parent : String} {rest : List String}

/-! ## Properties -/

theorem outcome_current (hopened : i.opened = node :: rest) :
    outcome current i = (.ok node, i) := by
  simp [current, hopened]

theorem outcome_current_of_nil (hopened : i.opened = []) :
    outcome current i = (.error (.invalid .noOpenNode), i) := by
  simp [current, invalid, hopened]

theorem outcome_mention (name : String) (i : Import) :
    outcome (mention name) i = (.ok (), { i with mentioned := including i.mentioned name }) := rfl

theorem outcome_write (node name : String) (property : Property) (i : Import) :
    outcome (write node name property) i =
      match i.repository.node? node with
      | none => (.error (.repository (.nodeNotFound node)), i)
      | some n =>
        (.ok (), { i with
          repository :=
            { i.repository with
              nodes := i.repository.nodes.insert node
                { n with properties := n.properties.insert name property } }
          written := including i.written (Path.join node name) }) := by
  rw [write, outcome_bind, onRepository, outcome_onRepositoryWith, Repository.outcome_setProperty]
  cases i.repository.node? node <;> rfl

theorem outcome_setFileProperty (hopened : i.opened = node :: rest) {n : Node}
    (hn : i.repository.node? node = some n) (name : String) (v : Value) :
    outcome (setFileProperty name v) i =
      (.ok (), { i with
        repository :=
          { i.repository with
            nodes := i.repository.nodes.insert node
              { n with properties := n.properties.insert name (.single v) } }
        mentioned := including i.mentioned name
        written := including i.written (Path.join node name) }) := by
  have hwrite := outcome_write node name (.single v) i
  rw [hn] at hwrite
  rw [setFileProperty, outcome_bind_of_ok (outcome_current hopened), outcome_bind_of_ok hwrite,
    outcome_mention]

theorem keeps_eq_false (hnew : i.repository.property? node name = none) :
    keeps i node name = false := by
  simp [keeps, hnew]

theorem outcome_setWith (hopened : i.opened = node :: rest) (name : String)
    (set : String → Step Unit) :
    outcome (setWith name set) i =
      if keeps i node name then (.ok (), { i with mentioned := including i.mentioned name })
      else outcome (set node) { i with mentioned := including i.mentioned name } := by
  have hcurrent : outcome current { i with mentioned := including i.mentioned name } =
      (.ok node, { i with mentioned := including i.mentioned name }) := outcome_current hopened
  have hkeeps : keeps { i with mentioned := including i.mentioned name } node name =
      keeps i node name := rfl
  rw [setWith, outcome_bind, outcome_mention]
  dsimp only
  rw [outcome_bind, hcurrent]
  dsimp only
  rw [outcome_bind, outcome_get]
  dsimp only
  rw [hkeeps]
  split <;> rfl

theorem outcome_setWith_of_nil (hopened : i.opened = []) (name : String)
    (set : String → Step Unit) :
    outcome (setWith name set) i =
      (.error (.invalid .noOpenNode), { i with mentioned := including i.mentioned name }) := by
  have hcurrent : outcome current { i with mentioned := including i.mentioned name } =
      (.error (.invalid .noOpenNode), { i with mentioned := including i.mentioned name }) :=
    outcome_current_of_nil hopened
  rw [setWith, outcome_bind, outcome_mention]
  dsimp only
  rw [outcome_bind, hcurrent]

section New

variable (hopened : i.opened = node :: rest) (hnew : i.repository.property? node name = none)

include hopened hnew

theorem outcome_setWith_of_new (set : String → Step Unit) :
    outcome (setWith name set) i =
      outcome (set node) { i with mentioned := including i.mentioned name } := by
  rw [outcome_setWith hopened, keeps_eq_false hnew]
  rfl

theorem outcome_setProperty_of_new (type : ValueType) (text : String) :
    outcome (setProperty name type text) i =
      outcome (assign node name type text)
        { i with mentioned := including i.mentioned name } := by
  rw [setProperty_eq, outcome_setWith_of_new hopened hnew]

theorem outcome_setProperties_of_new (type : ValueType) (texts : List String) :
    outcome (setProperties name type texts) i =
      outcome (assignAll node name type texts)
        { i with mentioned := including i.mentioned name } := by
  rw [setProperties_eq, outcome_setWith_of_new hopened hnew]

end New

/-! ## Nodes -/

theorem outcome_discard {α : Type} (change : Repository.Change α) (i : Import) :
    outcome (discard (onRepository change)) i =
      match outcome change i.repository with
      | (.ok _, r) => (.ok (), { i with repository := r })
      | (.error e, r) => (.error (.repository e), { i with repository := r }) := by
  have hbind : discard (onRepository change) = onRepository change >>= fun _ => pure () := rfl
  rw [hbind, outcome_bind, onRepository, outcome_onRepositoryWith]
  rcases outcome change i.repository with ⟨e | a, r⟩ <;> rfl

/-- A node with a mixin type, unless it has the type anyway. -/
def withMixin (n : Node) (mixin : String) : Node :=
  if n.hasType mixin then n else { n with mixins := n.mixins ++ [mixin] }

theorem exists_outcome_addMixin (mixin : String) {n : Node}
    (hn : i.repository.node? node = some n) :
    ∃ r, outcome (discard (onRepository (Repository.addMixin node mixin))) i =
        (.ok (), { i with repository := r }) ∧
      ∀ q, r.node? q = if node = q then some (withMixin n mixin) else i.repository.node? q := by
  rw [outcome_discard, Repository.outcome_addMixin, hn]
  by_cases htype : n.hasType mixin = true
  · refine ⟨i.repository, by simp [htype], fun q => ?_⟩
    rw [withMixin, if_pos htype]
    split
    · next hq => rw [← hq, hn]
    · rfl
  · refine ⟨_, by simp only [htype]; rfl, fun q => ?_⟩
    rw [withMixin, if_neg htype]
    exact Table.get?_insert ..

/-- Mixin types are added to a node that is there, one after the other. -/
theorem exists_outcome_addMixins (mixins : List String) {n : Node}
    (hn : i.repository.node? node = some n) :
    ∃ r, outcome (addMixins node mixins) i = (.ok (), { i with repository := r }) ∧
      ∀ q, r.node? q = if node = q then some (mixins.foldl withMixin n)
        else i.repository.node? q := by
  induction mixins generalizing i n with
  | nil =>
    refine ⟨i.repository, rfl, fun q => ?_⟩
    split
    · next hq => rw [← hq, hn, List.foldl_nil]
    · rfl
  | cons mixin mixins ih =>
    have hcons : addMixins node (mixin :: mixins) =
        discard (onRepository (Repository.addMixin node mixin)) >>= fun _ =>
          addMixins node mixins := rfl
    obtain ⟨r, hadded, hr⟩ := exists_outcome_addMixin mixin hn
    obtain ⟨r', hmixins, hr'⟩ := ih (i := { i with repository := r }) ((hr node).trans (if_pos rfl))
    refine ⟨r', ?_, fun q => ?_⟩
    · rw [hcons, outcome_bind, hadded]
      exact hmixins
    · rw [hr', List.foldl_cons]
      split
      · rfl
      · next hq => rw [hr, if_neg hq]

/-- The import that is left when a child is opened. -/
def withOpen (i : Import) (r : Repository) (created : List String) (node : String) : Import :=
  { i with
    repository := r
    created := created
    imported := including i.imported node
    top := i.top.orElse fun _ => some node
    opened := node :: i.opened }

section Open

variable (hover : i.options.overwrite = false) (type : Option String) (mixins : List String)

include hover

/-- A child that is there is opened with more mixin types. -/
theorem exists_outcome_openChild_of_node {n : Node}
    (hn : i.repository.node? (Path.join parent name) = some n) :
    ∃ r, outcome (openChild parent name type mixins) i =
        (.ok (), i.withOpen r i.created (Path.join parent name)) ∧
      ∀ q, r.node? q = if Path.join parent name = q then some (mixins.foldl withMixin n)
        else i.repository.node? q := by
  obtain ⟨r, hmixins, hr⟩ := exists_outcome_addMixins mixins hn
  have hnode := Repository.hasNode_of_node? hn
  refine ⟨r, ?_, hr⟩
  rw [openChild]
  simp [hover, hnode, hmixins, withOpen]

/-- A child that is not there is added, or nothing is done. -/
theorem openChild_cases_of_new
    (hnew : i.repository.hasNode (Path.join parent name) = false) :
    (∃ e, outcome (openChild parent name type mixins) i = (.error e, i)) ∨
      ∃ r n, Path.isName name = true ∧ i.repository.node? parent = some n ∧
        outcome (openChild parent name type mixins) i =
          (.ok (), i.withOpen r (i.created ++ [Path.join parent name]) (Path.join parent name)) ∧
        ∀ q, r.node? q =
          if Path.join parent name = q then
            some (mixins.foldl withMixin
              { identifier := Repository.identifier i.repository.serial
                type := type.getD unstructuredType })
          else if parent = q then some { n with children := n.children ++ [name] }
          else i.repository.node? q := by
  have hopen : outcome (openChild parent name type mixins) i =
      outcome (do
        discard <| onRepository (Repository.addNode parent name (type.getD unstructuredType))
        recordCreated (Path.join parent name)
        addMixins (Path.join parent name) mixins
        modify fun i =>
          { i with
            imported := including i.imported (Path.join parent name)
            top := i.top.orElse fun _ => some (Path.join parent name)
            opened := Path.join parent name :: i.opened }) i := by
    rw [openChild]
    simp [hover, hnew]
  rw [hopen, outcome_bind, outcome_discard]
  rcases i.repository.addNode_cases parent name (type.getD unstructuredType) with
    ⟨e, hadd⟩ | ⟨r, n, hname, hparent, hadd, hr⟩
  · exact .inl ⟨_, by rw [hadd]⟩
  · let recorded : Import :=
      { i with repository := r, created := i.created ++ [Path.join parent name] }
    obtain ⟨r', hmixins, hr'⟩ := exists_outcome_addMixins (i := recorded) mixins
      ((hr (Path.join parent name)).trans (if_pos rfl))
    refine .inr ⟨r', n, hname, hparent, ?_, fun q => ?_⟩
    · have hrecorded : outcome (recordCreated (Path.join parent name)) { i with repository := r } =
          (.ok (), recorded) := rfl
      rw [hadd]
      dsimp only
      rw [outcome_bind, hrecorded]
      dsimp only
      rw [outcome_bind, hmixins]
      rfl
    · rw [hr']
      split
      · rfl
      · next hq => exact (hr q).trans (if_neg hq)

end Open

/-- The child that opening a node comes to, by its parent and its name. There is none if the top
node of the document is the target itself. -/
def opening (i : Import) (name : Option String) : Except ImportError (Option (String × String)) :=
  match i.opened, name with
  | [], _ => .error (.invalid .noOpenNode)
  | parent :: _, some name => .ok (some (parent, name))
  | [parent], none => .ok (i.defaultName.map (parent, ·))
  | _ :: _ :: _, none => .error (.invalid .namelessNode)

theorem outcome_openNode (i : Import) (name type : Option String) (mixins : List String) :
    outcome (openNode name type mixins) i =
      match i.opening name with
      | .error e => (.error e, i)
      | .ok none => (.ok (), i)
      | .ok (some child) => outcome (openChild child.1 child.2 type mixins) i := by
  cases hopened : i.opened with
  | nil => simp [openNode, opening, outcome_current_of_nil hopened, hopened]
  | cons parent rest =>
    cases name with
    | some name => simp [openNode, opening, outcome_current hopened, hopened]
    | none =>
      cases rest with
      | nil =>
        cases hname : i.defaultName <;>
          simp [openNode, opening, outcome_current hopened, hopened, hname]
      | cons => simp [openNode, opening, outcome_current hopened, hopened, invalid]

theorem outcome_closeNode_of_nil (hopened : i.opened = []) :
    outcome closeNode i = (.error (.invalid .nothingToClose), i) := by
  simp [closeNode, invalid, hopened]

theorem outcome_closeNode (hopened : i.opened = node :: rest) :
    outcome closeNode i = outcome (settleNode node) { i with opened := rest } := by
  rw [closeNode_eq, outcome_bind_of_ok (outcome_get i), hopened]
  rfl

/-- The properties that wait for a node are written if the node is there. -/
theorem outcome_settleReferences (node : String) (i : Import) :
    outcome (settleReferences node) i =
      match i.repository.node? node with
      | none => (.ok (), { i with waiting := i.waiting.erase node })
      | some n => outcome (((i.waiting.get? node).getD []).forM (settleProperty node n.identifier))
          { i with waiting := i.waiting.erase node } := by
  cases hpaths : i.waiting.get? node with
  | none =>
    have herase : i.waiting.erase node = i.waiting := Table.erase_of_get?_eq_none hpaths
    rw [herase]
    cases i.repository.node? node <;> simp [settleReferences, hpaths]
  | some paths => cases hn : i.repository.node? node <;> simp [settleReferences, hpaths, hn]

/-- Closing a node for which nothing waits only takes it from the open ones. -/
theorem outcome_closeNode_of_none (hopened : i.opened = node :: rest)
    (hmerge : i.options.propertyMerge = false) (hwaiting : i.waiting.get? node = none) :
    outcome closeNode i = (.ok (), { i with opened := rest }) := by
  simp [closeNode, settleReferences, hopened, hmerge, hwaiting]

/-! ## Scripts -/

section Scripts

variable {α β : Type}

theorem run_call (c : Call) : run (Script.call c) = perform c := by
  have hrun : run (Script.call c) = [c].forM perform >>= fun _ => pure () := rfl
  rw [hrun]
  simp

theorem run_bind (s : Script α) (f : α → Script β) :
    run (s.bind f) = run s >>= fun a => run (f a) := by
  obtain ⟨calls, e | a⟩ := s
  · simp [run, Script.bind]
  · have hbind : (Script.mk calls (.ok a)).bind f = ⟨calls ++ (f a).calls, (f a).result⟩ := rfl
    rw [hbind]
    simp [run]

theorem run_ofResult (a : α) : run (Script.ofResult (.ok a)) = pure a := rfl

theorem run_forM (f : α → Script Unit) (l : List α) :
    run (l.forM f) = l.forM fun a => run (f a) := by
  induction l with
  | nil => rfl
  | cons a l ih =>
    have hcons : (a :: l).forM f = (f a).bind fun _ => l.forM f := rfl
    rw [hcons, run_bind, ih]
    rfl

instance : LawfulMonad Script := by
  refine LawfulMonad.mk' Script ?_ ?_ ?_
  · rintro α ⟨calls, e | a⟩
    · rfl
    · exact congrArg (Script.mk · (.ok a)) (List.append_nil calls)
  · exact fun _ _ => rfl
  · rintro α β γ ⟨calls, e | a⟩ f g
    · rfl
    · change ((Script.mk calls (.ok a)).bind f).bind g =
        (Script.mk calls (.ok a)).bind fun a => (f a).bind g
      rcases hfa : f a with ⟨calls', e | b⟩
      · simp [Script.bind, hfa]
      · simp [Script.bind, hfa]

end Scripts

end Import

end ContentImport
