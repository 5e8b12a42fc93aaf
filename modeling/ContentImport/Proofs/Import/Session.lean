import ContentImport.Load.Basic
import ContentImport.Proofs.Import.Containment

/-!
# Sessions

A `session` is what becomes of an import when a prepared importer goes through a list of actions,
whichever of them fail; a document that is loaded is a session whose calls come from a reader
(`Loader.reading`). Either changes nothing outside of its target (`outside_unchanged`).
-/

namespace ContentImport.Import

variable {target : String} {start : Import}

/-! ## Actions -/

/-- What can happen to an importer once it is prepared. -/
inductive Action
  | call (c : Call)
  | finish
  /-- Time passes. -/
  | wait (moment : Int)

/-- The step that an action is. -/
def Action.step : Action → Step Unit
  | .call c => perform c
  | .finish => Import.finish
  | .wait moment => modify fun i => { i with clock := moment }

/-- The import that an action leaves, whether it fails or not. -/
def after (i : Import) (a : Action) : Import := (outcome a.step i).2

/-- An importer that is to import into a repository. -/
def new (options : ImportOptions) (clock : Int) (r : Repository) : Import :=
  { repository := r, options, clock }

/-- The import that is left when a new importer is prepared for a target and goes through one action
after the other, no matter which of them fail. -/
def session (options : ImportOptions) (clock : Int) (r : Repository) (target : String)
    (name : Option String) (actions : List Action) : Import :=
  actions.foldl after (outcome (prepare target name) (new options clock r)).2

/-- An import that is prepared for a document below a target. -/
theorem outcome_prepare {r : Repository} (htarget : r.hasNode target = true)
    (options : ImportOptions) (clock : Int) (name : Option String) :
    outcome (prepare target name) (new options clock r) =
      (.ok (), { new options clock r with opened := [target], defaultName := name }) := by
  simp [prepare, new, htarget]

theorem isContained_new (options : ImportOptions) (clock : Int) (r : Repository)
    (target : String) : IsContained target (new options clock r) (new options clock r) where
  repository := .refl target r
  options := rfl
  opened := List.forall_mem_nil _
  imported := List.forall_mem_nil _
  waiting := by
    intro node paths h
    cases h

/-- An import that was prepared and carried out a script is contained in its target. -/
theorem isContained_of_run {options : ImportOptions} {clock : Int} {r : Repository}
    {name : Option String} {α : Type} {s : Script α} {a : α} {i : Import}
    (htarget : r.hasNode target = true)
    (hrun : outcome (run s) { new options clock r with opened := [target], defaultName := name } =
      (.ok a, i)) : IsContained target (new options clock r) i := by
  have hprepared := (contained_prepare name _ (isContained_new options clock r target)).1
  rw [outcome_prepare htarget] at hprepared
  have hread := (contained_run s _ hprepared).1
  rwa [hrun] at hread

theorem IsContained.after {i : Import} (h : IsContained target start i) (a : Action) :
    IsContained target start (i.after a) := by
  cases a with
  | call c => exact (contained_perform c i h).1
  | finish => exact (contained_finish i h).1
  | wait => exact ⟨h.repository, h.options, h.opened, h.imported, h.waiting⟩

theorem IsContained.foldl_after {i : Import} (h : IsContained target start i)
    (actions : List Action) : IsContained target start (actions.foldl Import.after i) := by
  induction actions generalizing i with
  | nil => exact h
  | cons a actions ih => exact ih (h.after a)

theorem isContained_session (options : ImportOptions) (clock : Int) (r : Repository)
    (target : String) (name : Option String) (actions : List Action) :
    IsContained target (new options clock r) (session options clock r target name actions) := by
  have hnew := isContained_new options clock r target
  have hprepared := (contained_prepare name _ hnew).1
  exact hprepared.foldl_after actions

end ContentImport.Import

namespace ContentImport.Loader

open Import (IsContained)

/-! ## Documents -/

/-- The steps by which a document is read, before it is finished. -/
def reading (reader : DocumentReader) (s : Source) (target : String) (name : Option String) :
    Import.Step Unit := do
  Import.prepare target name
  Import.run (reader.script (← get).repository.restrictions s)

/-- The import of a document just before it is finished. -/
def unfinished (l : Loader) (clock : Int) (reader : DocumentReader) (s : Source)
    (target : String) (name : Option String) (r : Repository) : Import :=
  (outcome (reading reader s target name) (Import.new l.options clock r)).2

theorem steps_eq (reader : DocumentReader) (s : Source) (target : String) (name : Option String) :
    steps reader s target name =
      (do reading reader s target name
          Import.finish
          return (← get).created) := by
  simp only [steps, reading, bind_assoc]

theorem contained_reading {target : String} {start : Import} (reader : DocumentReader)
    (s : Source) (name : Option String) :
    Keeps (IsContained target start) (reading reader s target name) :=
  .bind (Import.contained_prepare name) fun _ _ => .bind .get fun _ _ => Import.contained_run _

theorem contained_steps {target : String} {start : Import} (reader : DocumentReader)
    (s : Source) (name : Option String) :
    Keeps (IsContained target start) (steps reader s target name) := by
  rw [steps_eq]
  refine .bind (contained_reading reader s name) fun _ _ => ?_
  exact .bind Import.contained_finish fun _ _ => .bind .get fun _ _ => .pure trivial

theorem isContained_unfinished (l : Loader) (clock : Int) (reader : DocumentReader) (s : Source)
    (target : String) (name : Option String) (r : Repository) :
    IsContained target (Import.new l.options clock r)
      (l.unfinished clock reader s target name r) :=
  (contained_reading reader s name _ (Import.isContained_new l.options clock r target)).1

end ContentImport.Loader

namespace ContentImport.Import

/-- **An import changes nothing outside of its target,** nor does it remove the target. That holds
of every session, and so of every document, whatever the reader of the document makes of it. -/
theorem outside_unchanged (target : String) (name : Option String) (clock : Int)
    (r : Repository) :
    (∀ (options : ImportOptions) (actions : List Action),
      Repository.SameOutside target r (session options clock r target name actions).repository) ∧
    ∀ (l : Loader) (reader : DocumentReader) (s : Source),
      Repository.SameOutside target r (outcome (l.load clock reader s target name) r).2 := by
  constructor
  · intro options actions
    exact (isContained_session options clock r target name actions).repository.sameOutside
  · intro l reader s
    have hnew := isContained_new l.options clock r target
    exact (Loader.contained_steps reader s name _ hnew).1.repository.sameOutside

end ContentImport.Import