import ContentImport.Proofs.Import.Declared
import Mathlib.Logic.Function.Iterate

/-!
# What closing a node does to a property that waits

A property that waits for a node is written when the node is closed, once for each time it waits.

* A `View` is a property with the stand-ins that it waits with, and `View.settle` is what writing it
  once comes to.
* `Watch` is a view with the number of times the property waits for each node, and `Watch.close` is
  what closing a node comes to (`isWatched_closeNode`).
* Closing a node changes neither nodes nor identifiers (`SameNodes`), and a property that waits for
  nothing goes on to wait for nothing (`isQuiet_closeNode`).

Before that, if properties are merged, the node loses those that the content does not mention
(`drops_closeNode`).
-/

namespace ContentImport.Import

variable {owner name node path id : String} {i j k : Import} {rest : List String}

/-! ## Nodes -/

/-- Two imports differ at most in properties and in the stand-ins that wait. -/
structure SameNodes (i j : Import) : Prop where
  options : j.options = i.options
  opened : j.opened = i.opened
  mentioned : j.mentioned = i.mentioned
  waiting : j.waiting = i.waiting
  identifier : ∀ path, j.identifier? path = i.identifier? path

namespace SameNodes

theorem refl (i : Import) : SameNodes i i := ⟨rfl, rfl, rfl, rfl, fun _ => rfl⟩

theorem trans (h : SameNodes i j) (h' : SameNodes j k) : SameNodes i k :=
  ⟨h'.options.trans h.options, h'.opened.trans h.opened, h'.mentioned.trans h.mentioned,
    h'.waiting.trans h.waiting, fun path => (h'.identifier path).trans (h.identifier path)⟩

theorem hasNode (h : SameNodes i j) (path : String) :
    j.repository.hasNode path = i.repository.hasNode path := by
  rw [← isSome_identifier?, h.identifier, isSome_identifier?]

end SameNodes

/-! ## Properties that content does not mention -/

/-- From one import to another some properties of a node were removed, and nothing else changed. -/
structure Drops (node : String) (names : List String) (i j : Import) : Prop where
  same : SameNodes i j
  pending : j.pending = i.pending
  property : ∀ owner name, j.repository.property? owner name =
    if owner = node ∧ name ∈ names then none else i.repository.property? owner name

theorem Drops.refl (node : String) (i : Import) : Drops node [] i i :=
  ⟨.refl i, rfl, fun _ _ => by simp⟩

theorem Drops.trans {names names' : List String} (h : Drops node names i j)
    (h' : Drops node names' j k) : Drops node (names ++ names') i k where
  same := h.same.trans h'.same
  pending := h'.pending.trans h.pending
  property := by
    intro owner name
    rw [h'.property, h.property]
    by_cases howner : owner = node
    · by_cases hname : name ∈ names <;> simp [howner, hname]
    · simp [howner]

theorem drops_removeProperty (name : String) (hnode : i.repository.hasNode node = true) :
    ∃ j, outcome (discard (onRepository (Repository.removeProperty node name))) i = (.ok (), j) ∧
      Drops node [name] i j := by
  obtain ⟨n, hn⟩ := Repository.exists_node?_of_hasNode hnode
  rw [outcome_discard, Repository.outcome_removeProperty, hn]
  refine ⟨_, rfl, ⟨rfl, rfl, rfl, rfl, map_identifier_insert hn (n.properties.erase name)⟩, rfl,
    fun owner other => ?_⟩
  split
  · next h =>
    obtain ⟨rfl, hother⟩ := h
    rw [Repository.property?, Repository.node?, Table.get?_insert, if_pos rfl, Option.bind_some,
      Table.get?_erase, if_pos (List.mem_singleton.1 hother)]
  · next h =>
    refine property?_replace hn fun hnode => ?_
    rw [Table.get?_erase, if_neg fun hother => h ⟨hnode.symm, by simp [hother]⟩]

theorem drops_forM (names : List String) (hnode : i.repository.hasNode node = true) :
    ∃ j, outcome (names.forM fun name =>
        discard (onRepository (Repository.removeProperty node name))) i = (.ok (), j) ∧
      Drops node names i j := by
  induction names generalizing i with
  | nil => exact ⟨i, rfl, .refl node i⟩
  | cons name names ih =>
    have hcons : ((name :: names).forM fun name =>
          discard (onRepository (Repository.removeProperty node name))) =
        discard (onRepository (Repository.removeProperty node name)) >>= fun _ =>
          names.forM fun name =>
            discard (onRepository (Repository.removeProperty node name)) := rfl
    obtain ⟨j, hj, hfirst⟩ := drops_removeProperty name hnode
    obtain ⟨k, hk, hrest⟩ := ih (i := j) (hfirst.same.hasNode node ▸ hnode)
    exact ⟨k, by rw [hcons, outcome_bind_of_ok hj, hk], hfirst.trans hrest⟩

/-- Whether the content does not mention a property, nor is it protected. -/
def isUnmentioned (i : Import) (name : String) : Bool :=
  !i.mentioned.contains name && !protectedNames.contains name

theorem isUnmentioned_iff {name : String} :
    i.isUnmentioned name = true ↔ name ∉ i.mentioned ∧ name ∉ protectedNames := by
  simp [isUnmentioned]

/-- **A node loses just the properties that the content does not mention** and that are not
protected. -/
theorem drops_removeUnmentioned (node : String) (i : Import) :
    ∃ names j, outcome (removeUnmentioned node) i = (.ok (), j) ∧ Drops node names i j ∧
      ∀ name, name ∈ names ↔
        (i.repository.property? node name).isSome = true ∧ i.isUnmentioned name = true := by
  cases hn : i.repository.node? node with
  | none =>
    refine ⟨[], i, by simp [removeUnmentioned, hn], .refl node i, fun name => ?_⟩
    simp [Repository.property?, hn]
  | some n =>
    obtain ⟨j, hj, hdrops⟩ := drops_forM (n.properties.keys.filter i.isUnmentioned)
      (Repository.hasNode_of_node? hn)
    refine ⟨_, j, ?_, hdrops, fun name => ?_⟩
    · rw [removeUnmentioned, outcome_bind_of_ok (outcome_get i), hn]
      exact hj
    · rw [List.mem_filter, Repository.property?, hn, Option.bind_some, ← Table.contains_iff]
      rfl

/-- **Closing a node removes properties that the content does not mention,** if that is asked for,
and then writes those that wait for the node. -/
theorem drops_closeNode (hopened : i.opened = node :: rest) :
    ∃ names k, outcome closeNode i = outcome (settleReferences node) k ∧
      Drops node names { i with opened := rest } k ∧
      ∀ name, name ∈ names ↔ i.options.propertyMerge = true ∧
        (i.repository.property? node name).isSome = true ∧ i.isUnmentioned name = true := by
  rw [outcome_closeNode hopened, settleNode, outcome_bind_of_ok (outcome_get _)]
  split
  · next hmerge =>
    obtain ⟨names, k, hk, hdrops, hnames⟩ :=
      drops_removeUnmentioned node { i with opened := rest }
    exact ⟨names, k, outcome_bind_of_ok hk, hdrops, fun name =>
      (hnames name).trans (and_iff_right hmerge).symm⟩
  · next hmerge => exact ⟨[], _, rfl, .refl node _, fun _ => ⟨nofun, fun h => absurd h.1 hmerge⟩⟩

/-- An import differs from an earlier one in properties only, and not in one that the content
mentions. -/
structure IsTrimmed (owner name : String) (i j : Import) : Prop where
  same : SameNodes i j
  pending : j.pending = i.pending
  property : name ∈ i.mentioned →
    j.repository.property? owner name = i.repository.property? owner name

theorem Drops.isTrimmed {names : List String} (h : Drops node names i j)
    (hnames : ∀ name ∈ names, i.isUnmentioned name = true) (owner name : String) :
    IsTrimmed owner name i j := by
  refine ⟨h.same, h.pending, fun hname => ?_⟩
  have hkept : name ∉ names := fun hmem => (isUnmentioned_iff.1 (hnames name hmem)).1 hname
  rw [h.property, if_neg fun hand => hkept hand.2]

/-! ## Views -/

/-- A property and the stand-ins of a list of references that it waits with. -/
structure View where
  property : Option Property
  pending : Option (List String)

/-- The stand-ins that are identifiers. -/
def identifiers (standIns : List String) : List String :=
  standIns.filter fun s => !Text.startsWith "/" s

/-- The view of a property that is written with stand-ins. -/
def View.ofStandIns (standIns : List String) : View where
  property := some (.multiple .reference ((identifiers standIns).map .reference))
  pending := if (identifiers standIns).length = standIns.length then none else some standIns

/-- The view of a property that is written now that a node has an identifier. -/
def View.settle (node id : String) (v : View) : View :=
  match v.pending with
  | none => ⟨some (.single (.reference id)), none⟩
  | some standIns => .ofStandIns (Import.settle node id standIns)

/-- A property that is written now is one of references. -/
theorem View.type_settle (node id : String) (v : View) :
    (v.settle node id).property.map Property.type = some .reference := by
  obtain ⟨property, _ | standIns⟩ := v <;> rfl

/-- The view of a property. -/
def view (i : Import) (owner name : String) : View :=
  ⟨i.repository.property? owner name, i.pending.get? (Path.join owner name)⟩

/-- The property that waits under a path, and what waits there afterwards. -/
theorem exists_outcome_settledProperty (path node id : String) (i : Import) :
    ∃ property pending,
      outcome (settledProperty path node id) i = (.ok property, { i with pending := pending }) ∧
      (∀ old, (View.mk old (i.pending.get? path)).settle node id =
        ⟨some property, pending.get? path⟩) ∧
      ∀ q, q ≠ path → pending.get? q = i.pending.get? q := by
  cases hpending : i.pending.get? path with
  | none =>
    refine ⟨.single (.reference id), i.pending, ?_, fun old => ?_, fun _ _ => rfl⟩
    · simp [settledProperty, hpending]
    · rw [hpending]
      rfl
  | some standIns =>
    let settled := settle node id standIns
    refine ⟨.multiple .reference ((identifiers settled).map .reference),
      if (identifiers settled).length = settled.length then i.pending.erase path
      else i.pending.insert path settled, ?_, fun old => congrArg (View.mk _) ?_, fun q hq => ?_⟩
    · rw [settledProperty, outcome_bind, outcome_get]
      dsimp only
      rw [hpending]
      rfl
    · split
      · rw [Table.get?_erase, if_pos rfl]
      · rw [Table.get?_insert, if_pos rfl]
    · split
      · rw [Table.get?_erase, if_neg hq]
      · rw [Table.get?_insert, if_neg fun heq => hq heq.symm]

/-- A property that waits is written if there is still a node to write it to. -/
theorem settleProperty_cases (node id path : String) (i : Import) :
    (outcome (settleProperty node id path) i = (.ok (), i) ∧
      ∀ owner, Path.parent? path = some owner → i.repository.hasNode owner = false) ∨
    ∃ owner n property pending, Path.parent? path = some owner ∧
      i.repository.node? owner = some n ∧
      outcome (settleProperty node id path) i = (.ok (), { i with
        pending := pending
        repository :=
          { i.repository with
            nodes := i.repository.nodes.insert owner
              { n with properties := n.properties.insert (Path.name path) property } } }) ∧
      (∀ old, (View.mk old (i.pending.get? path)).settle node id =
        ⟨some property, pending.get? path⟩) ∧
      ∀ q, q ≠ path → pending.get? q = i.pending.get? q := by
  cases hparent : Path.parent? path with
  | none => exact .inl ⟨by simp [settleProperty, hparent], fun owner howner => by cases howner⟩
  | some owner =>
    cases hnode : i.repository.hasNode owner with
    | false =>
      refine .inl ⟨by simp [settleProperty, hparent, hnode], ?_⟩
      intro owner' howner
      exact Option.some.inj howner ▸ hnode
    | true =>
      obtain ⟨n, hn⟩ := Repository.exists_node?_of_hasNode hnode
      obtain ⟨property, pending, houtcome, hsettle, hother⟩ :=
        exists_outcome_settledProperty path node id i
      refine .inr ⟨owner, n, property, pending, rfl, hn, ?_, hsettle, hother⟩
      simp [settleProperty, hparent, hnode, houtcome, onRepository, outcome_onRepositoryWith,
        Repository.outcome_setProperty, hn]

section Settle

variable (hself : standsFor owner name (Path.join owner name) = true)

include hself

/-- Writing a property whose path does not stand for another one leaves that one alone. -/
theorem view_settleProperty_of_ne (hpath : standsFor owner name path = false) (i : Import) :
    ∃ j, outcome (settleProperty node id path) i = (.ok (), j) ∧ SameNodes i j ∧
      j.view owner name = i.view owner name := by
  rcases settleProperty_cases node id path i with ⟨houtcome, -⟩ |
    ⟨owner', n, property, pending, hparent, hn, houtcome, -, hother⟩
  · exact ⟨i, houtcome, .refl i, rfl⟩
  · refine ⟨_, houtcome, ⟨rfl, rfl, rfl, rfl, ?_⟩, ?_⟩
    · exact map_identifier_insert hn (n.properties.insert (Path.name path) property)
    · have hne : Path.join owner name ≠ path := by
        rintro rfl
        rw [hself] at hpath
        cases hpath
      rw [view, view, hother _ hne]
      refine congrArg (View.mk · _) (property?_replace hn ?_)
      rintro rfl
      refine (Table.get?_insert ..).trans (if_neg ?_)
      rintro rfl
      simp [standsFor, hparent] at hpath

/-- **Writing a property that waits is what `View.settle` says.** -/
theorem view_settleProperty (node id : String) (howner : i.repository.hasNode owner = true) :
    ∃ j, outcome (settleProperty node id (Path.join owner name)) i = (.ok (), j) ∧
      SameNodes i j ∧ j.view owner name = (i.view owner name).settle node id := by
  have hpath : Path.parent? (Path.join owner name) = some owner ∧
      Path.name (Path.join owner name) = name := by
    simpa [standsFor] using hself
  rcases settleProperty_cases node id (Path.join owner name) i with ⟨-, hnone⟩ |
    ⟨owner', n, property, pending, hparent, hn, houtcome, hsettle, -⟩
  · rw [hnone owner hpath.1] at howner
    cases howner
  · obtain rfl := Option.some.inj (hpath.1.symm.trans hparent)
    refine ⟨_, houtcome, ⟨rfl, rfl, rfl, rfl, ?_⟩, ?_⟩
    · exact map_identifier_insert hn (n.properties.insert _ property)
    · rw [view, view, hsettle]
      refine congrArg (View.mk · _) ?_
      rw [hpath.2, Repository.property?, Repository.node?, Table.get?_insert, if_pos rfl,
        Option.bind_some, Table.get?_insert, if_pos rfl]

/-- **A property is written once for each time it waits.** -/
theorem view_forM_settleProperty (node id : String) (paths : List String) {count : Nat}
    (hcount : paths.filter (standsFor owner name) =
      List.replicate count (Path.join owner name))
    (howner : 0 < count → i.repository.hasNode owner = true) :
    ∃ j, outcome (paths.forM (settleProperty node id)) i = (.ok (), j) ∧ SameNodes i j ∧
      j.view owner name = (View.settle node id)^[count] (i.view owner name) := by
  induction paths generalizing i count with
  | nil =>
    obtain rfl : count = 0 := by simpa using hcount
    exact ⟨i, rfl, .refl i, rfl⟩
  | cons path paths ih =>
    have hcons : (path :: paths).forM (settleProperty node id) =
        settleProperty node id path >>= fun _ => paths.forM (settleProperty node id) := rfl
    cases hpath : standsFor owner name path with
    | false =>
      rw [List.filter_cons_of_neg (by simp [hpath])] at hcount
      obtain ⟨j, hj, hsame, hview⟩ := view_settleProperty_of_ne hself hpath i
      obtain ⟨k, hk, hsame', hview'⟩ := ih (i := j) hcount fun hpos => by
        rw [hsame.hasNode]
        exact howner hpos
      refine ⟨k, ?_, hsame.trans hsame', ?_⟩
      · rw [hcons, outcome_bind, hj]
        exact hk
      · rw [hview', hview]
    | true =>
      rw [List.filter_cons_of_pos hpath] at hcount
      obtain ⟨count, rfl⟩ : ∃ c, count = c + 1 := by
        cases count with
        | zero => cases hcount
        | succ c => exact ⟨c, rfl⟩
      obtain ⟨rfl, hrest⟩ := List.cons.inj hcount
      obtain ⟨j, hj, hsame, hview⟩ := view_settleProperty hself node id
        (howner (Nat.succ_pos count))
      obtain ⟨k, hk, hsame', hview'⟩ := ih (i := j) hrest fun _ => by
        rw [hsame.hasNode]
        exact howner (Nat.succ_pos count)
      refine ⟨k, ?_, hsame.trans hsame', ?_⟩
      · rw [hcons, outcome_bind, hj]
        exact hk
      · rw [hview', hview, Function.iterate_succ_apply]

/-! ## Closing -/

/-- What waits for a node is written, and then waits no more. -/
theorem settleReferences_cases (hnode : i.identifier? node = some id) {count : Nat}
    (hcount : i.waits owner name node = List.replicate count (Path.join owner name))
    (howner : 0 < count → i.repository.hasNode owner = true) :
    ∃ j, outcome (settleReferences node) i = (.ok (), j) ∧
      (∀ q, j.waits owner name q = if q = node then [] else i.waits owner name q) ∧
      j.view owner name = (View.settle node id)^[count] (i.view owner name) := by
  obtain ⟨n, hn, rfl⟩ := Option.map_eq_some_iff.1 hnode
  obtain ⟨j, hj, hsame, hview⟩ := view_forM_settleProperty hself node n.identifier
    (i := { i with waiting := i.waiting.erase node }) _ hcount howner
  refine ⟨j, ?_, fun q => ?_, hview⟩
  · rw [outcome_settleReferences, hn]
    exact hj
  · rw [waits, hsame.waiting]
    exact waits_erase i node q

/-- **Closing a node removes properties that the content does not mention, and then writes those
that wait for the node.** -/
theorem closeNode_cases (hopened : i.opened = node :: rest) (hnode : i.identifier? node = some id)
    {count : Nat} (hcount : i.waits owner name node = List.replicate count (Path.join owner name))
    (howner : 0 < count → i.repository.hasNode owner = true) :
    ∃ k j, IsTrimmed owner name { i with opened := rest } k ∧
      outcome closeNode i = (.ok (), j) ∧
      (∀ q, j.waits owner name q = if q = node then [] else i.waits owner name q) ∧
      j.view owner name = (View.settle node id)^[count] (k.view owner name) := by
  obtain ⟨names, k, hclose, hdrops, hnames⟩ := drops_closeNode hopened
  have htrimmed : IsTrimmed owner name { i with opened := rest } k :=
    hdrops.isTrimmed (fun name hname => ((hnames name).1 hname).2.2) owner name
  have hwaits : ∀ q, k.waits owner name q = i.waits owner name q := by
    intro q
    rw [waits, waits, htrimmed.same.waiting]
  obtain ⟨j, hj, hwaits', hview⟩ :=
    settleReferences_cases hself (i := k) ((htrimmed.same.identifier node).trans hnode)
      ((hwaits node).trans hcount) fun hpos => (htrimmed.same.hasNode owner).trans (howner hpos)
  exact ⟨k, j, htrimmed, hclose.trans hj, fun q => by rw [hwaits', hwaits], hview⟩

end Settle

/-! ## Watches -/

/-- A view of a property with the number of times that the property waits for each node. -/
structure Watch where
  view : View
  waits : String → Nat

/-- The watch of a property once a node is closed that has an identifier. -/
def Watch.close (w : Watch) (closed : String × String) : Watch where
  view := (View.settle closed.1 closed.2)^[w.waits closed.1] w.view
  waits := fun q => if q = closed.1 then 0 else w.waits q

/-- A property of an import is and waits as a watch says. -/
structure IsWatched (owner name : String) (i : Import) (w : Watch) : Prop where
  view : i.view owner name = w.view
  waits : ∀ node, i.waits owner name node = List.replicate (w.waits node) (Path.join owner name)

/-- A property waits for no node. -/
structure IsQuiet (owner name : String) (i : Import) : Prop where
  pending : i.pending.get? (Path.join owner name) = none
  waits : ∀ node, i.waits owner name node = []

theorem Undisturbed.isWatched (h : Undisturbed owner name i j) {w : Watch}
    (hi : IsWatched owner name i w) : IsWatched owner name j w where
  view := by rw [← hi.view, view, view, h.property, h.pending]
  waits := fun node => (h.waits node).trans (hi.waits node)

theorem Undisturbed.isQuiet (h : Undisturbed owner name i j) (hi : IsQuiet owner name i) :
    IsQuiet owner name j :=
  ⟨h.pending.trans hi.pending, fun node => (h.waits node).trans (hi.waits node)⟩

section Close

variable (hself : standsFor owner name (Path.join owner name) = true)
  (hopened : i.opened = node :: rest) (hnode : i.identifier? node = some id)

include hself hopened hnode

/-- **Closing a node does to a property that is mentioned what closing does to its watch.** -/
theorem isWatched_closeNode {w : Watch} (h : IsWatched owner name i w)
    (howner : i.repository.hasNode owner = true) (hmentioned : name ∈ i.mentioned) :
    IsWatched owner name (i.after (.call .closeNode)) (w.close (node, id)) := by
  obtain ⟨k, j, htrimmed, hclose, hwaits, hview⟩ :=
    closeNode_cases hself hopened hnode (h.waits node) fun _ => howner
  have hafter : i.after (.call .closeNode) = j := congrArg Prod.snd hclose
  have hbefore : k.view owner name = w.view := by
    rw [← h.view, view, view, htrimmed.property hmentioned, htrimmed.pending]
  rw [hafter]
  refine ⟨?_, fun q => ?_⟩
  · rw [hview, hbefore]
    rfl
  · rw [hwaits, Watch.close]
    dsimp only
    split
    · rfl
    · exact h.waits q

/-- A property that waits for nothing is not made to wait. -/
theorem isQuiet_closeNode (h : IsQuiet owner name i) :
    IsQuiet owner name (i.after (.call .closeNode)) := by
  have hcount : i.waits owner name node = List.replicate 0 (Path.join owner name) := h.waits node
  obtain ⟨k, j, htrimmed, hclose, hwaits, hview⟩ :=
    closeNode_cases hself hopened hnode hcount (by omega)
  have hafter : i.after (.call .closeNode) = j := congrArg Prod.snd hclose
  rw [hafter]
  refine ⟨?_, fun q => ?_⟩
  · have hpending := congrArg View.pending hview
    exact hpending.trans ((congrArg (Table.get? · _) htrimmed.pending).trans h.pending)
  · rw [hwaits]
    split
    · rfl
    · exact h.waits q

end Close

end ContentImport.Import
