import ContentImport.Proofs.Import.Settled

/-!
# Properties in the course of a session

What a list of actions does to a property that none of them sets, unless existing nodes are
overwritten or merged.

* A `trace` holds what comes of the actions one after the other, such as the nodes that they close.
* An action leaves the property undisturbed or closes a node (`after_cases`). So a property that
  waits for nothing goes on to wait for nothing (`isQuiet_run`), and what becomes of one that waits
  only depends on the nodes that are closed (`isWatched_run`).
-/

namespace ContentImport.Import

variable {owner name : String} {i j k : Import} {a : Action} {actions : List Action}

/-! ## Traces -/

/-- What comes of the actions of a list one after the other, each from the state that it finds. -/
def trace {α : Type} (f : Import → Action → List α) (i : Import) : List Action → List α
  | [] => []
  | a :: actions => f i a ++ trace f (i.after a) actions

theorem trace_append {α : Type} (f : Import → Action → List α) (i : Import)
    (actions actions' : List Action) :
    trace f i (actions ++ actions') =
      trace f i actions ++ trace f (actions.foldl after i) actions' := by
  induction actions generalizing i with
  | nil => rfl
  | cons a actions ih => simp only [List.cons_append, trace, ih, List.append_assoc, List.foldl_cons]

theorem mem_trace_iff {α : Type} {f : Import → Action → List α} {x : α} :
    x ∈ trace f i actions ↔
      ∃ before a rest, actions = before ++ a :: rest ∧ x ∈ f (before.foldl after i) a := by
  induction actions generalizing i with
  | nil => simp [trace]
  | cons b actions ih =>
    rw [trace, List.mem_append, ih]
    constructor
    · rintro (hx | ⟨before, a, rest, rfl, hx⟩)
      · exact ⟨[], b, actions, rfl, hx⟩
      · exact ⟨b :: before, a, rest, rfl, hx⟩
    · rintro ⟨before, a, rest, heq, hx⟩
      cases before with
      | nil =>
        obtain ⟨rfl, rfl⟩ := List.cons.inj heq
        exact .inl hx
      | cons c before =>
        obtain ⟨rfl, rfl⟩ := List.cons.inj heq
        exact .inr ⟨before, a, rest, rfl, hx⟩

/-- The node that an action closes, with its identifier. -/
def closed (i : Import) : Action → List (String × String)
  | .call .closeNode => (i.opened.head?.map fun node => (node, (i.identifier? node).getD "")).toList
  | _ => []

/-! ## Nodes -/

/-- The open nodes of an import are there, and existing nodes are kept. -/
structure IsSteady (i : Import) : Prop where
  overwrite : i.options.overwrite = false
  merge : i.options.merge = false
  opened : ∀ path ∈ i.opened, i.repository.hasNode path = true

theorem Progress.isSteady {closings : List (String × String)} (h : Progress closings i j)
    (hi : IsSteady i) : IsSteady j where
  overwrite := h.options ▸ hi.overwrite
  merge := h.options ▸ hi.merge
  opened := fun path hpath =>
    (h.openedNode path hpath).elim (fun hmem => h.hasNode (hi.opened path hmem)) id

/-- Closing a node neither adds nor removes one. -/
theorem progress_closeNode {node id : String} {rest : List String}
    (hopened : i.opened = node :: rest) (hnode : i.identifier? node = some id) :
    Progress [(node, id)] i (i.after (.call .closeNode)) := by
  obtain ⟨j, hclose, hclosed⟩ := isClosed_closeNode hopened
  have hafter : i.after (.call .closeNode) = j := congrArg Prod.snd hclose
  rw [hafter]
  refine ⟨hclosed.options, ?_, ?_, ?_, ?_, ?_, ?_⟩
  · intro path id hid
    rwa [hclosed.identifier]
  · intro path hpath
    rw [← isSome_identifier?, hclosed.identifier, isSome_identifier?] at hpath
    exact .inl hpath
  · intro path hpath
    rw [hopened] at hpath
    rw [hclosed.opened]
    simpa [or_comm] using hpath
  · intro path hpath
    rw [hclosed.opened] at hpath
    rw [hopened]
    exact .inl (List.mem_cons_of_mem _ hpath)
  · intro c hc
    rw [List.mem_singleton.1 hc, hclosed.identifier]
    exact hnode
  · intro m hm
    rwa [hclosed.mentioned]

/-! ## Runs -/

/-- The actions of a list open nodes by name, and none of them sets a property, or sets another one
to references whose path stands for it. -/
structure Spares (owner name : String) (i : Import) (actions : List Action) : Prop where
  opensByName : ∀ a ∈ actions, a.OpensByName
  declared : (owner, name) ∉ trace declared i actions
  references : ∀ p ∈ trace references i actions, standsFor owner name (Path.join p.1 p.2) = false

theorem Spares.tail (h : Spares owner name i (a :: actions)) :
    Spares owner name (i.after a) actions where
  opensByName := fun b hb => h.opensByName b (List.mem_cons_of_mem _ hb)
  declared := fun hmem => h.declared (List.mem_append_right _ hmem)
  references := fun p hp => h.references p (List.mem_append_right _ hp)

section Run

variable (hself : standsFor owner name (Path.join owner name) = true)

include hself

/-- An action that spares a property leaves it undisturbed, or else closes a node. -/
theorem after_cases (hi : IsSteady i) (h : Spares owner name i (a :: actions)) :
    i.closed a = [] ∧ Undisturbed owner name i (i.after a) ∨
      ∃ node id rest, a = .call .closeNode ∧ i.opened = node :: rest ∧
        i.identifier? node = some id ∧ i.closed a = [(node, id)] := by
  by_cases hclose : a = .call .closeNode
  · subst hclose
    cases hopened : i.opened with
    | nil =>
      have hafter : i.after (.call .closeNode) = i :=
        congrArg Prod.snd (outcome_closeNode_of_nil hopened)
      rw [hafter]
      exact .inl ⟨by simp [closed, hopened], .refl owner name i⟩
    | cons node rest =>
      have hnode : i.repository.hasNode node = true :=
        hi.opened node (hopened ▸ List.mem_cons_self)
      rw [← isSome_identifier?, Option.isSome_iff_exists] at hnode
      obtain ⟨id, hid⟩ := hnode
      exact .inr ⟨node, id, rest, rfl, rfl, hid, by simp [closed, hopened, hid]⟩
  · have hclosed : i.closed a = [] := by
      unfold closed
      split
      · exact absurd rfl hclose
      · rfl
    exact .inl ⟨hclosed, undisturbed_after hself hi.overwrite hi.merge
      (h.opensByName a List.mem_cons_self) hclose
      (fun hmem => h.declared (List.mem_append_left _ hmem))
      (fun p hp => h.references p (List.mem_append_left _ hp))⟩

/-- **A property that no action sets goes on to wait for nothing.** -/
theorem isQuiet_run (hi : IsSteady i) (h : Spares owner name i actions)
    (hquiet : IsQuiet owner name i) :
    Progress (trace closed i actions) i (actions.foldl after i) ∧
      IsQuiet owner name (actions.foldl after i) := by
  induction actions generalizing i with
  | nil => exact ⟨.refl i, hquiet⟩
  | cons a actions ih =>
    have hstep : Progress (i.closed a) i (i.after a) ∧ IsQuiet owner name (i.after a) := by
      rcases after_cases hself hi h with
        ⟨hclosed, hspared⟩ | ⟨node, id, rest, rfl, hopened, hid, hclosed⟩
      · rw [hclosed]
        exact ⟨hspared.toProgress, hspared.isQuiet hquiet⟩
      · rw [hclosed]
        exact ⟨progress_closeNode hopened hid, isQuiet_closeNode hself hopened hid hquiet⟩
    obtain ⟨hprogress, hafter⟩ := ih (hstep.1.isSteady hi) h.tail hstep.2
    exact ⟨hstep.1.trans hprogress, hafter⟩

/-- **What becomes of a property that waits only depends on the nodes that are closed.** -/
theorem isWatched_run (hi : IsSteady i) (h : Spares owner name i actions)
    (howner : i.repository.hasNode owner = true) (hname : name ∈ i.mentioned) {w : Watch}
    (hw : IsWatched owner name i w) :
    Progress (trace closed i actions) i (actions.foldl after i) ∧
      IsWatched owner name (actions.foldl after i)
        ((trace closed i actions).foldl Watch.close w) := by
  induction actions generalizing i w with
  | nil => exact ⟨.refl i, hw⟩
  | cons a actions ih =>
    have hstep : Progress (i.closed a) i (i.after a) ∧
        IsWatched owner name (i.after a) ((i.closed a).foldl Watch.close w) := by
      rcases after_cases hself hi h with
        ⟨hclosed, hspared⟩ | ⟨node, id, rest, rfl, hopened, hid, hclosed⟩
      · rw [hclosed]
        exact ⟨hspared.toProgress, hspared.isWatched hw⟩
      · rw [hclosed]
        exact ⟨progress_closeNode hopened hid,
          isWatched_closeNode hself hopened hid hw howner hname⟩
    obtain ⟨hprogress, hafter⟩ := ih (hstep.1.isSteady hi) h.tail (hstep.1.hasNode howner)
      (hstep.1.mentioned name hname) hstep.2
    refine ⟨hstep.1.trans hprogress, ?_⟩
    rw [trace, List.foldl_append]
    exact hafter

end Run

end ContentImport.Import
