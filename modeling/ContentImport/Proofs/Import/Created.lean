import ContentImport.Proofs.Import.Nodes

/-!
# The nodes that an import creates

An import takes down the nodes that it creates. `Accounts` says that this list is exact: it tells
the nodes there are now from those there were before, and every node comes after its parent.

Nodes are added at several places, for a child, for the content of a file and for each name on a
path, but everywhere by `create`, which takes a node down if and only if it was added
(`accounts_create`). Unless nodes are overwritten or merged, no other part of the importer adds a
node or removes one (`isKeptBy_accounts`). So every action keeps the list exact, whether it fails or
not (`Accounts.after`).
-/

namespace ContentImport.Import

variable {r : Repository} {i j : Import} {node parent name type : String}

/-! ## The list -/

/-- Paths are those of the nodes of a repository that were none in an earlier one. Each comes after
that of its parent, unless the parent was a node before. -/
structure ListsNewNodes (r r' : Repository) (paths : List String) : Prop where
  nodup : paths.Nodup
  mem_iff : ∀ path, path ∈ paths ↔ r'.hasNode path = true ∧ r.hasNode path = false
  parent : ∀ before path rest, paths = before ++ path :: rest →
    ∃ parent, Path.parent? path = some parent ∧ (r.hasNode parent = true ∨ parent ∈ before)

/-- The nodes that an import took down as created are the new ones, and no node was removed. -/
structure Accounts (r : Repository) (i : Import) : Prop where
  overwrite : i.options.overwrite = false
  merge : i.options.merge = false
  remains : ∀ path, r.hasNode path = true → i.repository.hasNode path = true
  created : ListsNewNodes r i.repository i.created

namespace Accounts

/-- Only the nodes, the list and the options matter. -/
theorem of_eq (h : Accounts r i)
    (hnode : ∀ path, j.repository.hasNode path = i.repository.hasNode path)
    (hcreated : j.created = i.created) (hoptions : j.options = i.options) : Accounts r j where
  overwrite := hoptions ▸ h.overwrite
  merge := hoptions ▸ h.merge
  remains := fun path hpath => (hnode path).trans (h.remains path hpath)
  created := by
    rw [hcreated]
    exact ⟨h.created.nodup, fun path => by rw [hnode, h.created.mem_iff], h.created.parent⟩

theorem hasNode_or_mem (h : Accounts r i) (hnode : i.repository.hasNode node = true) :
    r.hasNode node = true ∨ node ∈ i.created := by
  cases hbefore : r.hasNode node with
  | true => exact .inl rfl
  | false => exact .inr ((h.created.mem_iff node).2 ⟨hnode, hbefore⟩)

theorem ne_empty (h : Accounts r i) (hr : Repository.IsTree r)
    (hnode : i.repository.hasNode node = true) : node ≠ "" := by
  rcases h.hasNode_or_mem hnode with hnode | hmem
  · exact hr.ne_empty hnode
  · obtain ⟨before, rest, hcreated⟩ := List.append_of_mem hmem
    obtain ⟨parent, hparent, -⟩ := h.created.parent before node rest hcreated
    rintro rfl
    cases hparent

/-- A node is added, and taken down after all others. Its parent is there already. -/
theorem added (h : Accounts r i) (hr : Repository.IsTree r) (hname : Path.isName name = true)
    (hparent : i.repository.hasNode parent = true)
    (hnew : i.repository.hasNode (Path.join parent name) = false)
    (hnode : ∀ path, j.repository.hasNode path = true ↔
      i.repository.hasNode path = true ∨ path = Path.join parent name)
    (hcreated : j.created = i.created ++ [Path.join parent name])
    (hoptions : j.options = i.options) : Accounts r j where
  overwrite := hoptions ▸ h.overwrite
  merge := hoptions ▸ h.merge
  remains := fun path hpath => (hnode path).2 (.inl (h.remains path hpath))
  created := by
    rw [hcreated]
    constructor
    · refine h.created.nodup.append (List.nodup_singleton _) fun path hpath hlast => ?_
      obtain rfl := List.mem_singleton.1 hlast
      rw [h.created.mem_iff, hnew] at hpath
      cases hpath.1
    · intro path
      rw [List.mem_append, List.mem_singleton, h.created.mem_iff, hnode]
      constructor
      · rintro (⟨hpath, hout⟩ | rfl)
        · exact ⟨.inl hpath, hout⟩
        · refine ⟨.inr rfl, Bool.eq_false_iff.2 fun hold => ?_⟩
          rw [h.remains _ hold] at hnew
          cases hnew
      · rintro ⟨hpath | rfl, hout⟩
        · exact .inl ⟨hpath, hout⟩
        · exact .inr rfl
    · intro before path rest hsplit
      obtain ⟨hempty, -, -, hslash⟩ := Path.isName_iff.1 hname
      rcases List.eq_nil_or_concat' rest with rfl | ⟨rest, last, rfl⟩
      · obtain ⟨rfl, hpath⟩ := List.append_inj' hsplit rfl
        obtain rfl := List.singleton_inj.1 hpath
        have hroot := Path.join_ne_root (p := parent) hempty
        exact ⟨parent, Path.parent?_join (h.ne_empty hr hparent) hslash hroot,
          h.hasNode_or_mem hparent⟩
      · rw [← List.cons_append, ← List.append_assoc] at hsplit
        exact h.created.parent before path rest (List.append_inj' hsplit rfl).1

end Accounts

theorem accounts_new (options : ImportOptions) (clock : Int) (r : Repository)
    (hover : options.overwrite = false) (hmerge : options.merge = false) :
    Accounts r (new options clock r) where
  overwrite := hover
  merge := hmerge
  remains := fun _ hpath => hpath
  created := ⟨List.nodup_nil, by simp [new], by simp [new]⟩

/-! ## Parts of the importer -/

/-- **A node is taken down if and only if it was added.** -/
theorem accounts_create (hr : Repository.IsTree r) (parent name type : String) :
    Keeps (Accounts r) (create parent name type) := by
  intro i hi
  refine ⟨?_, fun _ _ => trivial⟩
  rw [create, outcome_bind, outcome_discard]
  by_cases hnew : i.repository.hasNode (Path.join parent name) = true
  · have hadd : ∃ e, outcome (Repository.addNode parent name type) i.repository =
        (.error e, i.repository) := by
      rw [Repository.outcome_addNode, if_pos hnew]
      split
      · exact ⟨_, rfl⟩
      · exact ⟨_, rfl⟩
    obtain ⟨e, hadd⟩ := hadd
    rw [hadd]
    exact hi
  · rcases i.repository.addNode_cases parent name type with
      ⟨e, hadd⟩ | ⟨r', n, hname, hparent, hadd, hr'⟩
    · rw [hadd]
      exact hi
    · rw [hadd]
      have hadded : ∀ path, r'.hasNode path = true ↔
          i.repository.hasNode path = true ∨ path = Path.join parent name := by
        intro path
        rw [show r'.hasNode path = (r'.node? path).isSome from rfl, hr']
        split
        · next hpath => simp [hpath]
        next hpath =>
        have hne : path ≠ Path.join parent name := fun heq => hpath heq.symm
        split
        · next heq => simp [← heq, Repository.hasNode_of_node? hparent]
        · simp [hne, Repository.hasNode, Repository.node?, Table.contains]
      exact hi.added hr hname (Repository.hasNode_of_node? hparent) (Bool.eq_false_iff.2 hnew)
        hadded rfl rfl

theorem isKeptBy_accounts : IsKeptBy KeepsTree (Accounts r) where
  principals := by
    intro op hop
    cases op <;> trivial
  operation := fun _ hop i h => h.of_eq (hasNode_after hop i.repository) rfl rfl
  notes := fun _ _ _ _ h => h.of_eq (fun _ => rfl) rfl rfl

theorem accounts_write (node name : String) (property : Property) :
    Keeps (Accounts r) (write node name property) :=
  (isKeptBy_accounts.onRepository (.setProperty node name property) trivial fun _ => rfl).bind
    fun _ _ => .modify fun _ h => h.of_eq (fun _ => rfl) rfl rfl

/-- **Every call keeps the list exact.** -/
theorem accounts_perform (hr : Repository.IsTree r) (c : Call) :
    Keeps (Accounts r) (perform c) := by
  refine isKeptBy_accounts.perform (fun _ _ _ _ h => h.of_eq (fun _ => rfl) rfl rfl)
    (fun _ _ _ h => h.of_eq (fun _ => rfl) rfl rfl) (accounts_create hr) accounts_write
    (fun _ _ _ => trivial) (fun _ _ => trivial) (fun _ _ _ _ => trivial) (fun i h hover => ?_)
    (fun _ _ _ _ _ => trivial)
    (fun id password extra _ => isKeptBy_accounts.createUser id password extra)
    fun id members extra _ => isKeptBy_accounts.createGroup id members extra
  rw [h.overwrite] at hover
  cases hover

/-! ## Sessions -/

section Sessions

variable (hr : Repository.IsTree r)

include hr

theorem Accounts.after (h : Accounts r i) (a : Action) : Accounts r (i.after a) := by
  cases a with
  | call c => exact (accounts_perform hr c i h).1
  | wait => exact h.of_eq (fun _ => rfl) rfl rfl
  | finish =>
    refine (keeps_finish (fun i h hmerge => ?_) i h).1
    rw [h.merge] at hmerge
    cases hmerge

theorem Accounts.foldl_after (h : Accounts r i) (actions : List Action) :
    Accounts r (actions.foldl Import.after i) := by
  induction actions generalizing i with
  | nil => exact h
  | cons a actions ih => exact ih (h.after hr a)

end Sessions

theorem accounts_prepare (target : String) (name : Option String) :
    Keeps (Accounts r) (prepare target name) :=
  .bind .get fun _ _ => .guarded (fun _ => .throw _) fun _ =>
    .modify fun _ h => h.of_eq (fun _ => rfl) rfl rfl

/-- **The list of created nodes is exact,** whichever actions an import goes through and whichever
of them fail, unless nodes are overwritten or merged. -/
theorem created_exact (hr : r.Reachable) {options : ImportOptions}
    (hover : options.overwrite = false) (hmerge : options.merge = false) (clock : Int)
    (target : String) (name : Option String) (actions : List Action) :
    ListsNewNodes r (session options clock r target name actions).repository
      (session options clock r target name actions).created := by
  have hprepared := (accounts_prepare target name _ (accounts_new options clock r hover hmerge)).1
  exact (hprepared.foldl_after hr.isTree actions).created

/-- A path with a name that no node can have, and a file that cannot be read. -/
def failingActions : List Action :=
  [ .call (.openPath "a/b/.." (some "nt:folder")),
    .call (.openFile "f.txt" (.error .missing) none 0) ]

/-- Both actions fail after some nodes were created, which are taken down all the same. -/
theorem created_exact_of_failing :
    (session {} 0 (Repository.new .standard) "/" none failingActions).created =
        ["/a", "/a/b", "/f.txt", "/f.txt/jcr:content"] ∧
      ListsNewNodes (Repository.new .standard)
        (session {} 0 (Repository.new .standard) "/" none failingActions).repository
        (session {} 0 (Repository.new .standard) "/" none failingActions).created :=
  ⟨by decide +kernel, created_exact (.new .standard) rfl rfl 0 "/" none failingActions⟩

end ContentImport.Import
