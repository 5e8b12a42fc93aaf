import ContentImport.Proofs.Reader.Denoted
import ContentImport.Proofs.Reader.RoundTrip

/-!
# Merged documents

Merging a JSON document makes the nodes below its top node those that the document denotes
(`lists_load_iff`), whatever was there before.

* Before it is finished, an import has imported the nodes that the document denotes and no others
  (`exists_imported_of_load`).
* A path that merging drops is a child of the target or of a denoted node, and is not denoted
  itself. So no denoted node lies within it (`isWithin_dropped`), and each child that is not denoted
  is dropped.
-/

namespace ContentImport.JsonReader

variable {path name q m : String} {members ms ms' : Json.Members} {S : Supported}

/-! ## Paths of denoted nodes -/

theorem HasNodeNames.denoted (h : HasNodeNames members) (hdenotes : Denotes path members q ms) :
    HasNodeNames ms := by
  induction hdenotes with
  | self => exact h
  | child _ hname hmem ih =>
    cases ih with
    | intro _ child => exact child _ _ hmem hname

theorem Denotes.hasDistinctNames (h : Denotes path members q ms)
    (hdistinct : Json.HasDistinctNames (.object members)) :
    Json.HasDistinctNames (.object ms) := by
  induction h with
  | self => exact hdistinct
  | child _ _ hmem ih => exact ih.member hmem

theorem Denotes.ne_empty (h : Denotes path members q ms) (hpath : path ≠ "") : q ≠ "" := by
  cases h with
  | self => exact hpath
  | child => exact Path.join_ne_empty _ _

theorem HasNodeNames.isName (h : HasNodeNames members) {children : Json.Members}
    (hname : IsNodeName name) (hmem : (name, .object children) ∈ members) :
    Path.isName name = true := by
  cases h with
  | intro isName _ => exact isName name children hmem hname

/-- Nothing within a path is the parent of the path. -/
theorem Denotes.join_ne (h : Denotes path members q ms) (hm : Path.isName m = true) :
    Path.join q m ≠ path := by
  intro heq
  have hroot : Path.join q m ≠ Path.root := Path.join_ne_root (Path.isName_iff.1 hm).1
  have hout := Path.isWithin_join_eq_false h.isWithin hroot
  rw [heq, Path.isWithin_refl] at hout
  cases hout

section Paths

variable (hnames : HasNodeNames members) (hpath : path ≠ "")

include hnames hpath

/-- A denoted node is the first one or a child of another one. -/
theorem Denotes.cases_join (hq : q ≠ "") (hm : Path.isName m = true)
    (h : Denotes path members (Path.join q m) ms) :
    (Path.join q m = path ∧ ms = members) ∨
      ∃ object, Denotes path members q object ∧ IsNodeName m ∧ (m, .object ms) ∈ object := by
  generalize hp : Path.join q m = p at h
  cases h with
  | self => exact .inl ⟨rfl, rfl⟩
  | child parent hname hmem =>
    obtain ⟨rfl, rfl⟩ := Path.join_inj hq (parent.ne_empty hpath) (Path.isName_iff.1 hm).2.2.2
      (Path.isName_iff.1 ((hnames.denoted parent).isName hname hmem)).2.2.2 hp
    exact .inr ⟨_, parent, hname, hmem⟩

/-- One object denotes a node. -/
theorem Denotes.unique (hdistinct : Json.HasDistinctNames (.object members))
    (h : Denotes path members q ms) (h' : Denotes path members q ms') : ms = ms' := by
  induction h generalizing ms' with
  | self =>
    rcases denotes_iff.1 h' with ⟨-, rfl⟩ | ⟨n, children, hmem, hname, hbelow⟩
    · rfl
    · have hroot : Path.join path n ≠ Path.root :=
        Path.join_ne_root (Path.isName_iff.1 (hnames.isName hname hmem)).1
      have hout := Path.isWithin_join_eq_false (Path.isWithin_refl path) hroot
      rw [hbelow.isWithin] at hout
      cases hout
  | @child q m object children parent hname hmem ih =>
    have hm := (hnames.denoted parent).isName hname hmem
    rcases h'.cases_join hnames hpath (parent.ne_empty hpath) hm with
      ⟨heq, -⟩ | ⟨object', parent', -, hmem'⟩
    · exact absurd heq (parent.join_ne hm)
    · obtain rfl := ih parent'
      have hnodup := (parent.hasDistinctNames hdistinct).nodup
      have heq := List.inj_on_of_nodup_map hnodup hmem hmem' rfl
      exact Json.object.inj (congrArg Prod.snd heq)

end Paths

/-! ## What merging leaves -/

/-- What an object denotes at a child of a target was imported, and nothing else. -/
structure IsDenotedIn (i : Import) (target name : String) (members : Json.Members) : Prop where
  isTree : i.repository.IsTree
  hasTarget : i.repository.hasNode target = true
  isName : Path.isName name = true
  names : HasNodeNames members
  imported : ∀ p, p ∈ i.imported ↔ ∃ ms, Denotes (Path.join target name) members p ms
  isBelow : ∀ p ∈ i.imported, Path.IsBelow p target
  hasNode : ∀ p ∈ i.imported, i.repository.hasNode p = true

section Dropped

open Repository (IsPruned)

variable {i : Import} {target p parent : String} {left : Repository}
  (h : IsDenotedIn i target name members)

include h

namespace IsDenotedIn

theorem target_ne_empty : target ≠ "" := h.isTree.ne_empty h.hasTarget

/-- What is dropped is a child of a node within the target, and was not imported. -/
theorem exists_of_isDropped (hp : i.IsDropped p) :
    p ∉ i.imported ∧ ∃ parent m, i.repository.Lists parent m ∧ p = Path.join parent m ∧
      Path.isWithin parent target = true := by
  obtain ⟨hnot, node, hnode, ⟨m, hlist, rfl⟩ | ⟨parent, hparent, m, hlist, rfl⟩⟩ := hp
  · exact ⟨hnot, node, m, hlist, rfl, (h.isBelow node hnode).within⟩
  · exact ⟨hnot, parent, m, hlist, rfl, (h.isBelow node hnode).isWithin_parent hparent⟩

/-- No denoted node lies within what is dropped. -/
theorem isWithin_dropped (hq : Denotes (Path.join target name) members q ms)
    (hp : i.IsDropped p) : Path.isWithin q p = false := by
  obtain ⟨hnot, parent, m, hlist, hjoin, hparent⟩ := h.exists_of_isDropped hp
  have hempty : p ≠ "" := hjoin ▸ Path.join_ne_empty parent m
  have hstep : ∀ {q m ms}, q ≠ "" → Path.isName m = true →
      Denotes (Path.join target name) members (Path.join q m) ms → Path.isWithin q p = false →
      Path.isWithin (Path.join q m) p = false := by
    intro q m ms hq hm hdenotes hout
    rw [Bool.eq_false_iff]
    intro hwithin
    rcases Path.isWithin_of_join hq hempty (Path.isName_iff.1 hm).2.2.2 hwithin with heq | hwithin
    · exact hnot ((h.imported p).2 ⟨ms, heq ▸ hdenotes⟩)
    · rw [hout] at hwithin
      cases hwithin
  induction hq with
  | self =>
    refine hstep h.target_ne_empty h.isName .self ?_
    rw [hjoin]
    exact Path.isWithin_join_eq_false hparent (h.isTree.join_ne_root hlist)
  | child above hname hmem ih =>
    exact hstep (above.ne_empty (Path.join_ne_empty _ _))
      ((h.names.denoted above).isName hname hmem) (above.child hname hmem) ih

theorem hasNode_of_denotes (hpruned : IsPruned i.IsDropped i.repository left)
    (hq : Denotes (Path.join target name) members q ms) : left.hasNode q = true :=
  (hpruned.hasNode q).2 ⟨h.hasNode q ((h.imported q).2 ⟨ms, hq⟩), fun _ => h.isWithin_dropped hq⟩

/-- Where children that were not imported are dropped, those remain that were imported. -/
theorem lists_iff_imported (hpruned : IsPruned i.IsDropped i.repository left)
    (hparent : i.repository.hasNode parent = true)
    (hdropped : ∀ p, i.repository.IsChild parent p → p ∉ i.imported → i.IsDropped p) :
    left.Lists parent m ↔ Path.isName m = true ∧ Path.join parent m ∈ i.imported := by
  rw [hpruned.lists_iff h.isTree]
  constructor
  · rintro ⟨hlist, hleft⟩
    refine ⟨(h.isTree.child parent m hlist).1, ?_⟩
    by_contra hnot
    have hout := ((hpruned.hasNode _).1 hleft).2 _ (hdropped _ ⟨m, hlist, rfl⟩ hnot)
    rw [Path.isWithin_refl] at hout
    cases hout
  · rintro ⟨hm, himported⟩
    obtain ⟨ms, hdenotes⟩ := (h.imported _).1 himported
    obtain ⟨hne, -, -, hslash⟩ := Path.isName_iff.1 hm
    have hempty := h.isTree.ne_empty hparent
    obtain ⟨n, hlist, heq⟩ := h.isTree.exists_lists (h.hasNode _ himported)
      (Path.parent?_join hempty hslash (Path.join_ne_root hne))
    obtain ⟨-, rfl⟩ := Path.join_inj hempty hempty hslash (h.isTree.noSlash hlist) heq
    exact ⟨hlist, h.hasNode_of_denotes hpruned hdenotes⟩

/-- A denoted node is left with the children that its object denotes. -/
theorem lists_iff (hpruned : IsPruned i.IsDropped i.repository left)
    (hdistinct : Json.HasDistinctNames (.object members))
    (hq : Denotes (Path.join target name) members q ms) :
    left.Lists q m ↔ IsNodeName m ∧ ∃ children, (m, .object children) ∈ ms := by
  have hjoin := Path.join_ne_empty target name
  have himported := (h.imported q).2 ⟨ms, hq⟩
  rw [h.lists_iff_imported hpruned (h.hasNode q himported) fun p hp hnot =>
    ⟨hnot, q, himported, .inl hp⟩]
  constructor
  · rintro ⟨hm, hmem⟩
    obtain ⟨children, hdenotes⟩ := (h.imported _).1 hmem
    rcases hdenotes.cases_join h.names hjoin (hq.ne_empty hjoin) hm with
      ⟨heq, -⟩ | ⟨object, hobject, hname, hmem⟩
    · exact absurd heq (hq.join_ne hm)
    · obtain rfl := hobject.unique h.names hjoin hdistinct hq
      exact ⟨hname, children, hmem⟩
  · rintro ⟨hname, children, hmem⟩
    exact ⟨(h.names.denoted hq).isName hname hmem, (h.imported _).2 ⟨children, hq.child hname hmem⟩⟩

/-- The target is left with one child. -/
theorem lists_target_iff (hpruned : IsPruned i.IsDropped i.repository left) :
    left.Lists target m ↔ m = name := by
  have hjoin := Path.join_ne_empty target name
  obtain ⟨hne, -, -, hslash⟩ := Path.isName_iff.1 h.isName
  have hroot : Path.join target name ≠ Path.root := Path.join_ne_root hne
  have htop := (h.imported _).2 ⟨members, .self⟩
  have hparent := Path.parent?_join h.target_ne_empty hslash hroot
  rw [h.lists_iff_imported hpruned h.hasTarget fun p hp hnot =>
    ⟨hnot, _, htop, .inr ⟨target, hparent, hp⟩⟩]
  constructor
  · rintro ⟨hm, hmem⟩
    obtain ⟨ms, hdenotes⟩ := (h.imported _).1 hmem
    rcases hdenotes.cases_join h.names hjoin h.target_ne_empty hm with
      ⟨heq, -⟩ | ⟨object, hobject, -⟩
    · exact (Path.join_inj h.target_ne_empty h.target_ne_empty (Path.isName_iff.1 hm).2.2.2 hslash
        heq).2
    · have hout := Path.isWithin_join_eq_false (Path.isWithin_refl target) hroot
      rw [hobject.isWithin] at hout
      cases hout
  · rintro rfl
    exact ⟨h.isName, htop⟩

end IsDenotedIn

end Dropped

/-! ## Documents -/

variable {l : Loader} {clock : Int} {reader : DocumentReader} {s : Source} {target : String}
  {r : Repository} {bytes : Bytes} {text : String} {created : List String}

/-- An import that has read a document, and is about to finish it, has imported what the document
denotes. -/
theorem exists_imported_of_load (hr : r.Reachable) (hformat : reader.format = .ok .json)
    (hbytes : s.bytes = .ok bytes) (htext : decode bytes = .ok text)
    (hobject : document? text = .ok members) (hname : Path.isName name = true)
    (hnames : HasNodeNames members)
    (hload : (outcome (l.load clock reader s target (some name)) r).1 = .ok created) :
    ∃ i, i.options = l.options ∧ IsDenotedIn i target name members ∧
      (outcome (l.load clock reader s target (some name)) r).2 =
        (outcome Import.finish i).2.repository := by
  obtain ⟨i, htarget, hrun, hleft⟩ := Loader.exists_run_of_load hload
  have hcontained := Import.isContained_of_run htarget hrun
  rw [script_of_document hformat hbytes htext hobject] at hrun
  have hread : IsImported (supported r.restrictions) members :=
    hnames.isImported (hasDistinctNames_of_document? hobject)
  have hopening : ∀ type mixins,
      outcome (Import.openNode none type mixins)
          { Import.new l.options clock r with opened := [target], defaultName := some name } =
        outcome (Import.openChild target name type mixins)
          { Import.new l.options clock r with opened := [target], defaultName := some name } :=
    fun type mixins => by simp [Import.openNode, Import.current]
  have hadds := hread rfl hopening hrun
  have himported : ∀ p, p ∈ i.imported ↔ ∃ ms, Denotes (Path.join target name) members p ms :=
    fun p => (hadds.imported p).trans (by simp [Import.new])
  have hroot : Path.join target name ≠ Path.root := Path.join_ne_root (Path.isName_iff.1 hname).1
  refine ⟨i, hcontained.options, ⟨(hcontained.repository.reachable hr).isTree, ?_, hname, hnames,
    himported, hcontained.imported, fun p hp => hadds.added p ((himported p).1 hp)⟩, hleft⟩
  refine hadds.kept target ?_ htarget
  rw [Path.isWithin_join_eq_false (Path.isWithin_refl target) hroot]
  exact Bool.noConfusion

/-- **A merged document leaves below the target the nodes that it denotes.** They are there, each
with the children that its object denotes and no others, and the top node of the document is the
only child of the target. -/
theorem lists_load_iff (hr : r.Reachable) (hmerge : l.options.merge = true)
    (hformat : reader.format = .ok .json) (hbytes : s.bytes = .ok bytes)
    (htext : decode bytes = .ok text) (hobject : document? text = .ok members)
    (hname : Path.isName name = true) (hnames : HasNodeNames members)
    (hload : (outcome (l.load clock reader s target (some name)) r).1 = .ok created) :
    let left := (outcome (l.load clock reader s target (some name)) r).2
    (∀ q ms, Denotes (Path.join target name) members q ms → left.hasNode q = true ∧
      ∀ m, left.Lists q m ↔ IsNodeName m ∧ ∃ children, (m, .object children) ∈ ms) ∧
    ∀ m, left.Lists target m ↔ m = name := by
  intro left
  obtain ⟨i, hoptions, hdenoted, hleft⟩ :=
    exists_imported_of_load hr hformat hbytes htext hobject hname hnames hload
  have hpruned := Import.isPruned_finish hdenoted.isTree (hoptions ▸ hmerge)
  rw [← hleft] at hpruned
  have hdistinct := hasDistinctNames_of_document? hobject
  exact ⟨fun q ms hq => ⟨hdenoted.hasNode_of_denotes hpruned hq,
    fun m => hdenoted.lists_iff hpruned hdistinct hq⟩, fun m => hdenoted.lists_target_iff hpruned⟩

/-- A document with an object that is ignored and one that describes a principal. -/
def treeText : String :=
  "\x7b\"a\":\x7b\"b\":\x7b\x7d\x7d,\"jcr:created\":\x7b\"c\":\x7b\x7d\x7d," ++
    "\"security:principals\":\x7b\"name\":\"u\"\x7d\x7d"

/-- What the document describes. -/
def treeMembers : Json.Members :=
  [ ("a", .object [("b", .object [])]), ("jcr:created", .object [("c", .object [])]),
    ("security:principals", .object [("name", .string "u")]) ]

theorem hasNodeNames_treeMembers : HasNodeNames treeMembers := by
  have hempty : HasNodeNames [] := .intro (fun _ _ h => by cases h) fun _ _ h => by cases h
  have ha : HasNodeNames [("b", .object [])] := by
    refine .intro (fun name children h _ => ?_) fun name children h _ => ?_
    · cases List.mem_singleton.1 h
      decide
    · cases List.mem_singleton.1 h
      exact hempty
  have hmem : ∀ name children, (name, Json.object children) ∈ treeMembers → IsNodeName name →
      name = "a" ∧ children = [("b", .object [])] := by
    intro name children h hname
    simp only [treeMembers, List.mem_cons, Prod.mk.injEq, Json.object.injEq,
      List.not_mem_nil, or_false] at h
    rcases h with h | ⟨rfl, -⟩ | ⟨rfl, -⟩
    · exact h
    · exact absurd (by decide) hname.ignored
    · exact absurd rfl hname.principals
  refine .intro (fun name children h hname => ?_) fun name children h hname => ?_
  · rw [(hmem name children h hname).1]
    decide
  · rw [(hmem name children h hname).2]
    exact ha

/-- A repository with nodes that the document does not denote. -/
def oldTree : Repository :=
  Repository.run
    [ .addNode "/" "x" "t", .addNode "/x" "a" "t", .addNode "/x/a" "stale" "t",
      .addNode "/x" "old" "t", .addNode "/" "y" "t" ] (.new Registry.standard)

/-- What merging the document into the repository returns and leaves. -/
def treeLoad : Except ImportError (List String) × Repository :=
  outcome (Loader.merging.load 0 (.ofFormat .json)
    { bytes := .ok (Utf8.encode treeText), origin := ⟨Table.empty, none, 0⟩ } "/" (some "x"))
    oldTree

theorem lists_load_iff_treeText :
    oldTree.nodes.keys = ["/", "/x", "/x/a", "/x/a/stale", "/x/old", "/y"] ∧
      decode (Utf8.encode treeText) = .ok treeText ∧ document? treeText = .ok treeMembers ∧
      HasNodeNames treeMembers ∧ treeLoad.1 = .ok ["/x/a/b"] ∧
      (treeLoad.2.hasNode "/x/a" = true ∧
        ∀ m, treeLoad.2.Lists "/x/a" m ↔ IsNodeName m ∧
          ∃ children, (m, .object children) ∈ [("b", Json.object [])]) ∧
      ∀ m, treeLoad.2.Lists "/" m ↔ m = "x" := by
  have htext : decode (Utf8.encode treeText) = .ok treeText := by decide +kernel
  have hobject : document? treeText = .ok treeMembers := by decide +kernel
  have hload : treeLoad.1 = .ok ["/x/a/b"] := by decide +kernel
  have hr : oldTree.Reachable := (Repository.Reachable.new .standard).run _
  have ha : Denotes "/x" treeMembers "/x/a" [("b", .object [])] :=
    .child .self ⟨by decide, by decide, by decide⟩ List.mem_cons_self
  obtain ⟨hdenoted, htarget⟩ := lists_load_iff hr rfl rfl rfl htext hobject (by decide)
    hasNodeNames_treeMembers hload
  exact ⟨by decide +kernel, htext, hobject, hasNodeNames_treeMembers, hload,
    hdenoted "/x/a" _ ha, htarget⟩

end ContentImport.JsonReader
