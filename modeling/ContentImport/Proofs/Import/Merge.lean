import ContentImport.Proofs.Import.Session
import ContentImport.Proofs.Repository.Removal

/-!
# What merging removes

With the option to merge, finishing a document removes the children and the siblings of imported
nodes that were not imported. Imported are the nodes that were opened by name; a node on a path that
was opened as a whole is not, nor is a file that was there already.

* `IsDropped` says which paths are removed, and `isPruned_finish` that finishing removes them with
  all that lies within them, and nothing else.
* So of the nodes that a document has when it is finished, those remain that lie within no dropped
  path (`Loader.hasNode_load_iff`), no matter whether the document created them itself. An archive
  whose only file lies in a folder loses both (`Loader.created_not_kept`).
-/

namespace ContentImport

namespace Import

open Repository (IsPruned)

/-! ## Dropped paths -/

/-- A path is that of a child of an imported node, or of the parent of one, and was not imported
itself. -/
def IsDropped (i : Import) (path : String) : Prop :=
  path ∉ i.imported ∧ ∃ node ∈ i.imported, i.repository.IsChild node path ∨
    ∃ parent, Path.parent? node = some parent ∧ i.repository.IsChild parent path

variable {i : Import} {path : String}

theorem mem_peers_iff : path ∈ peers i ↔ ∃ node ∈ i.imported, path ≠ node ∧
    ∃ parent, Path.parent? node = some parent ∧ i.repository.IsChild parent path := by
  rw [peers, List.mem_flatMap]
  refine exists_congr fun node => and_congr_right fun _ => ?_
  cases Path.parent? node with
  | none => simp
  | some parent => simp [Repository.mem_children_iff, and_comm]

theorem mem_offspring_iff : path ∈ offspring i ↔
    ∃ node ∈ i.imported, i.repository.IsChild node path := by
  rw [offspring, List.mem_flatMap]
  exact exists_congr fun node => and_congr_right fun _ => Repository.mem_children_iff

/-- A path is dropped as a sibling or as a child. -/
theorem isDropped_iff : i.IsDropped path ↔
    (path ∈ peers i ∧ path ∉ i.imported) ∨ path ∈ offspring i ∧ path ∉ i.imported := by
  rw [IsDropped, mem_peers_iff, mem_offspring_iff]
  constructor
  · rintro ⟨hpath, node, hnode, hchild | hchild⟩
    · exact .inr ⟨⟨node, hnode, hchild⟩, hpath⟩
    · have hne : path ≠ node := fun heq => hpath (heq ▸ hnode)
      exact .inl ⟨⟨node, hnode, hne, hchild⟩, hpath⟩
  · rintro (⟨⟨node, hnode, -, hchild⟩, hpath⟩ | ⟨⟨node, hnode, hchild⟩, hpath⟩)
    · exact ⟨hpath, node, hnode, .inr hchild⟩
    · exact ⟨hpath, node, hnode, .inl hchild⟩

/-! ## Finishing -/

theorem outcome_removeQuietly (path : String) (i : Import) :
    outcome (removeQuietly path) i =
      (.ok (),
        { i with repository := (Repository.Operation.removeNode path).after i.repository }) := by
  rw [removeQuietly, outcome_modify]
  split
  · rfl
  · next hpath =>
    rw [Repository.after_removeNode_of_hasNode_eq_false (Bool.eq_false_iff.2 hpath)]

theorem outcome_forM_removeQuietly (paths : List String) (i : Import) :
    outcome (paths.forM removeQuietly) i =
      (.ok (),
        { i with
          repository := Repository.run (paths.map .removeNode) i.repository }) := by
  induction paths generalizing i with
  | nil => rfl
  | cons path paths ih =>
    have hcons : (path :: paths).forM removeQuietly =
        removeQuietly path >>= fun _ => paths.forM removeQuietly := rfl
    rw [hcons, outcome_bind, outcome_removeQuietly]
    exact ih _

theorem outcome_removeOthers (paths : List String) (i : Import) :
    outcome (removeOthers paths) i =
      (.ok (),
        { i with
          repository := Repository.run
            ((paths.filter fun p => !i.imported.contains p).map .removeNode) i.repository }) := by
  rw [removeOthers, outcome_bind, outcome_get]
  exact outcome_forM_removeQuietly _ i

theorem isPruned_removeOthers (h : i.repository.IsTree) (paths : List String)
    (hpaths : ∀ p ∈ paths, ∃ parent, i.repository.IsChild parent p) :
    IsPruned (fun p => p ∈ paths ∧ p ∉ i.imported) i.repository
      (outcome (removeOthers paths) i).2.repository := by
  rw [outcome_removeOthers]
  have hmem : ∀ p, p ∈ paths.filter (fun p => !i.imported.contains p) ↔
      p ∈ paths ∧ p ∉ i.imported := by
    intro p
    simp [List.mem_filter]
  have hroot : ∀ p ∈ paths.filter (fun p => !i.imported.contains p), p ≠ Path.root := by
    intro p hp
    obtain ⟨parent, hchild⟩ := hpaths p ((hmem p).1 hp).1
    exact h.ne_root_of_isChild hchild
  refine (h.isPruned_run hroot).congr ?_
  intro p
  rw [hmem]
  constructor
  · exact And.left
  · intro hp
    obtain ⟨parent, hchild⟩ := hpaths p hp.1
    exact ⟨hp, h.hasNode_of_isChild hchild⟩

/-- The import once the siblings of imported nodes are gone. -/
def withoutPeers (i : Import) : Import := (outcome (removeOthers (peers i)) i).2

theorem imported_withoutPeers (i : Import) : i.withoutPeers.imported = i.imported := by
  rw [withoutPeers, outcome_removeOthers]

theorem outcome_finish (hmerge : i.options.merge = true) :
    outcome finish i = outcome (removeOthers (offspring i.withoutPeers)) i.withoutPeers := by
  rw [finish, outcome_bind, outcome_get]
  dsimp only
  rw [if_pos hmerge, outcome_bind, outcome_get]
  dsimp only
  rw [outcome_bind, withoutPeers, outcome_removeOthers]
  rfl

/-- **Merging removes the dropped paths with all that lies within them, and nothing else.** The
children of imported nodes are only looked for once the siblings are gone, but the children that are
missing by then are gone with a sibling. -/
theorem isPruned_finish (h : i.repository.IsTree) (hmerge : i.options.merge = true) :
    IsPruned i.IsDropped i.repository (outcome finish i).2.repository := by
  have hpeers : IsPruned (fun p => p ∈ peers i ∧ p ∉ i.imported) i.repository
      i.withoutPeers.repository := by
    refine isPruned_removeOthers h (peers i) ?_
    intro p hp
    obtain ⟨node, -, -, parent, -, hchild⟩ := mem_peers_iff.1 hp
    exact ⟨parent, hchild⟩
  have hoffspring : IsPruned
      (fun p => p ∈ offspring i.withoutPeers ∧ p ∉ i.withoutPeers.imported)
      i.withoutPeers.repository (outcome finish i).2.repository := by
    rw [outcome_finish hmerge]
    refine isPruned_removeOthers hpeers.isTree (offspring i.withoutPeers) ?_
    intro p hp
    obtain ⟨node, -, hchild⟩ := mem_offspring_iff.1 hp
    exact ⟨node, hchild⟩
  have hgone : ∀ p, p ∈ offspring i.withoutPeers ∧ p ∉ i.withoutPeers.imported ↔
      (p ∈ offspring i ∧ p ∉ i.imported) ∧ i.withoutPeers.repository.hasNode p = true := by
    intro p
    rw [mem_offspring_iff, mem_offspring_iff, imported_withoutPeers]
    constructor
    · rintro ⟨⟨node, hnode, hchild⟩, hp⟩
      obtain ⟨hchild, hleft⟩ := (hpeers.isChild_iff h).1 hchild
      exact ⟨⟨⟨node, hnode, hchild⟩, hp⟩, hleft⟩
    · rintro ⟨⟨⟨node, hnode, hchild⟩, hp⟩, hleft⟩
      exact ⟨⟨node, hnode, (hpeers.isChild_iff h).2 ⟨hchild, hleft⟩⟩, hp⟩
  refine (hpeers.trans (hoffspring.congr hgone) ?_).congr fun p => isDropped_iff.symm
  rintro p ⟨hp, -⟩
  obtain ⟨node, -, hchild⟩ := mem_offspring_iff.1 hp
  exact h.hasNode_of_isChild hchild

end Import

namespace Loader

/-! ## Documents -/

variable {l : Loader} {clock : Int} {reader : DocumentReader} {s : Source} {target : String}
  {name : Option String} {r : Repository} {created : List String}

/-- A document that is loaded was read, and then finished. -/
theorem outcome_load_of_ok
    (hload : (outcome (l.load clock reader s target name) r).1 = .ok created) :
    (outcome (l.load clock reader s target name) r).2 =
      (outcome Import.finish (l.unfinished clock reader s target name r)).2.repository := by
  have hsteps : outcome (l.load clock reader s target name) r =
      ((outcome (steps reader s target name) (Import.new l.options clock r)).1,
        (outcome (steps reader s target name) (Import.new l.options clock r)).2.repository) := rfl
  rw [hsteps, steps_eq, outcome_bind] at hload
  rw [hsteps, steps_eq, outcome_bind, unfinished]
  rcases hreading : outcome (reading reader s target name) (Import.new l.options clock r) with
    ⟨e | u, i⟩
  · rw [hreading] at hload
    cases hload
  · dsimp only
    rw [outcome_bind]
    rcases outcome Import.finish i with ⟨e | u, j⟩ <;> rfl

/-- A document that is read by a prepared importer, and is not merged, is loaded. -/
theorem outcome_load_of_run {i : Import} (htarget : r.hasNode target = true)
    (hrun : outcome (Import.run (reader.script r.restrictions s))
        { Import.new l.options clock r with opened := [target], defaultName := name } = (.ok (), i))
    (hmerge : i.options.merge = false) :
    outcome (l.load clock reader s target name) r = (.ok i.created, i.repository) := by
  have hprepare := Import.outcome_prepare htarget l.options clock name
  have hfinish : outcome Import.finish i = (.ok (), i) := by simp [Import.finish, hmerge]
  have hsteps : outcome (steps reader s target name) (Import.new l.options clock r) =
      (.ok i.created, i) := by
    rw [steps, outcome_bind_of_ok hprepare, outcome_bind_of_ok (outcome_get _)]
    exact (outcome_bind_of_ok hrun).trans (outcome_bind_of_ok hfinish)
  change ((outcome (steps reader s target name) (Import.new l.options clock r)).1,
    (outcome (steps reader s target name) (Import.new l.options clock r)).2.repository) = _
  rw [hsteps]

/-- A document that is loaded was read by an importer that was prepared for the target. -/
theorem exists_run_of_load
    (hload : (outcome (l.load clock reader s target name) r).1 = .ok created) :
    ∃ i, r.hasNode target = true ∧
      outcome (Import.run (reader.script r.restrictions s))
          { Import.new l.options clock r with opened := [target], defaultName := name } =
        (.ok (), i) ∧
      (outcome (l.load clock reader s target name) r).2 =
        (outcome Import.finish i).2.repository := by
  have hleft := outcome_load_of_ok hload
  have hsteps : (outcome (l.load clock reader s target name) r).1 =
      (outcome (steps reader s target name) (Import.new l.options clock r)).1 := rfl
  rw [hsteps] at hload
  rcases houtcome : outcome (steps reader s target name)
    (Import.new l.options clock r) with ⟨e | a, i'⟩
  · rw [houtcome] at hload
    cases hload
  rw [steps_eq] at houtcome
  obtain ⟨u, i, hreading, -⟩ := outcome_bind_eq_ok houtcome
  have hunfinished : l.unfinished clock reader s target name r = i := by
    rw [unfinished, hreading]
  rw [hunfinished] at hleft
  rw [reading] at hreading
  obtain ⟨u, i₀, hprepared, hrun⟩ := outcome_bind_eq_ok hreading
  rw [outcome_bind, outcome_get] at hrun
  have htarget : r.hasNode target = true := by
    by_contra hnone
    rw [Bool.not_eq_true] at hnone
    simp [Import.prepare, Import.new, hnone] at hprepared
  rw [Import.outcome_prepare htarget] at hprepared
  obtain rfl : _ = i₀ := congrArg Prod.snd hprepared
  exact ⟨i, htarget, hrun, hleft⟩

/-- **Of the nodes that a merged document leads to, those remain that lie within no dropped
path.** -/
theorem hasNode_load_iff (hr : r.Reachable) (hmerge : l.options.merge = true)
    (hload : (outcome (l.load clock reader s target name) r).1 = .ok created) (path : String) :
    (outcome (l.load clock reader s target name) r).2.hasNode path = true ↔
      (l.unfinished clock reader s target name r).repository.hasNode path = true ∧
        ∀ p, (l.unfinished clock reader s target name r).IsDropped p →
          Path.isWithin path p = false := by
  have hcontained := isContained_unfinished l clock reader s target name r
  have htree := (hcontained.repository.reachable hr).isTree
  have hoptions : (l.unfinished clock reader s target name r).options.merge = true := by
    rw [hcontained.options]
    exact hmerge
  rw [outcome_load_of_ok hload]
  exact (Import.isPruned_finish htree hoptions).hasNode path

/-- An archive with one empty file `f/a`, which is not compressed. -/
def nestedFile : Bytes :=
  [ 80, 75, 3, 4, 20, 0, 0, 0, 0, 0, 0, 0, 33, 0, 0, 0, 0, 0, 0, 0, 0, 0, 0, 0, 0, 0, 3, 0, 0, 0,
    102, 47, 97,
    80, 75, 1, 2, 20, 0, 20, 0, 0, 0, 0, 0, 0, 0, 33, 0, 0, 0, 0, 0, 0, 0, 0, 0, 0, 0, 0, 0, 3, 0,
    0, 0, 0, 0, 0, 0, 0, 0, 0, 0, 128, 1, 0, 0, 0, 0, 102, 47, 97,
    80, 75, 5, 6, 0, 0, 0, 0, 1, 0, 1, 0, 49, 0, 0, 0, 33, 0, 0, 0, 0, 0 ]

/-- A loader that merges. -/
def merging : Loader := .ofConfig { options := { merge := true } }

/-- The source of the archive. -/
def nestedSource : Source := { bytes := .ok nestedFile, origin := ⟨Table.empty, none, 0⟩ }

/-- What loading the archive into a new repository returns and leaves. -/
def nestedLoad : Except ImportError (List String) × Repository :=
  outcome (merging.load 0 (.ofFormat (.archive {})) nestedSource "/" (some "x"))
    (.new Registry.standard)

/-- The import of the archive before it is finished. -/
def nestedImport : Import :=
  merging.unfinished 0 (.ofFormat (.archive {})) nestedSource "/" (some "x")
    (.new Registry.standard)

theorem hasNode_load_iff_nestedFile :
    merging.options.merge = true ∧
      nestedLoad.1 = .ok ["/x", "/x/f", "/x/f/a", "/x/f/a/jcr:content"] ∧
      (nestedLoad.2.hasNode "/x/f/a" = true ↔ nestedImport.repository.hasNode "/x/f/a" = true ∧
        ∀ p, nestedImport.IsDropped p → Path.isWithin "/x/f/a" p = false) := by
  have hcreated : nestedLoad.1 = .ok ["/x", "/x/f", "/x/f/a", "/x/f/a/jcr:content"] := by
    decide +kernel
  exact ⟨rfl, hcreated, hasNode_load_iff (.new .standard) rfl hcreated "/x/f/a"⟩

/-- **Merging does not keep all that a document creates.** The folder of the file is opened as a
path, so it was not imported but is a child of the imported top node, and goes with the file. -/
theorem created_not_kept :
    ¬ ∀ (l : Loader) (clock : Int) (reader : DocumentReader) (s : Source) (target : String)
      (name : Option String) (r : Repository) (created : List String),
      r.Reachable → l.options.merge = true →
      (outcome (l.load clock reader s target name) r).1 = .ok created →
      ∀ path ∈ created,
        (l.unfinished clock reader s target name r).repository.hasNode path = true →
        (outcome (l.load clock reader s target name) r).2.hasNode path = true := by
  intro hkept
  have hcreated : nestedLoad.1 = .ok ["/x", "/x/f", "/x/f/a", "/x/f/a/jcr:content"] := by
    decide +kernel
  have hbefore : nestedImport.repository.hasNode "/x/f/a" = true := by decide +kernel
  have hafter : nestedLoad.2.hasNode "/x/f/a" = false := by decide +kernel
  have hnode : nestedLoad.2.hasNode "/x/f/a" = true :=
    hkept merging 0 _ nestedSource "/" (some "x") _ _ (.new .standard) rfl hcreated "/x/f/a"
      (by decide) hbefore
  rw [hafter] at hnode
  cases hnode

end Loader

end ContentImport
