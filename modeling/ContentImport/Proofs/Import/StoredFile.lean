import ContentImport.Proofs.Import.Reference

/-!
# Files that are left as they are

A call for a file leaves the content of a file alone that is as new, unless nodes are overwritten,
and does not count as mentioning its properties. So with the option to merge properties they are
removed when the content is closed, the data with the others; only those stay that are protected or
that were mentioned before (`property?_storedFile`, `storedFile_not_kept`).
-/

namespace ContentImport.Import

variable {i : Import} {parent : String} {rest : List String}

/-! ## Calls for files -/

/-- A call for a file, and the calls that close its two nodes. -/
def fileCalls (name : String) (data : Except FileError Bytes) (mediaType : Option String)
    (modified : Int) : List Call :=
  [.openFile name data mediaType modified, .closeNode, .closeNode]

/-- The path of the file that a call opens below a node. -/
def filePath (parent name : String) : String := Path.join parent (Text.afterLast '/' name)

/-- The path of the content of that file. -/
def contentPath (parent name : String) : String := Path.join (filePath parent name) contentName

section Stored

variable {name : String} {modified : Int} (hopened : i.opened = parent :: rest)
  (hover : i.options.overwrite = false)
  (hfile : i.repository.hasNode (filePath parent name) = true)
  (hcontent : i.repository.hasNode (contentPath parent name) = true)
  (hmodified : modified ≤ storedModified i.repository (contentPath parent name))

include hopened hover hfile hcontent hmodified

theorem outcome_openFile_of_stored (data : Except FileError Bytes) (mediaType : Option String) :
    outcome (openFile name data mediaType modified) i =
      (.ok (), { i with
        opened := contentPath parent name :: filePath parent name :: parent :: rest }) := by
  have hstored : outcome (openStoredFile (filePath parent name) modified) i = (.ok false, { i with
      opened := contentPath parent name :: filePath parent name :: parent :: rest }) := by
    have hold : ¬ storedModified i.repository (contentPath parent name) < modified :=
      Int.not_lt.2 hmodified
    rw [outcome_openStoredFile hcontent, hopened, hover, Bool.false_or]
    exact congrArg (fun b => (Except.ok b, _)) (decide_eq_false hold)
  have hthere : i.repository.hasNode (Path.join parent (Text.afterLast '/' name)) = true := hfile
  rw [openFile, outcome_bind_of_ok (outcome_current hopened), outcome_bind_of_ok (outcome_get i),
    if_pos hthere]
  exact outcome_bind_of_ok hstored

/-- **The content of a file that is as new loses the properties that were not mentioned before** if
properties are merged, and no other ones. -/
theorem property?_storedFile (data : Except FileError Bytes) (mediaType : Option String) :
    ∃ j, outcome ((fileCalls name data mediaType modified).forM perform) i = (.ok (), j) ∧
      ∀ other, i.waits (contentPath parent name) other (contentPath parent name) = [] →
        i.waits (contentPath parent name) other (filePath parent name) = [] →
        j.repository.property? (contentPath parent name) other =
          if i.options.propertyMerge = true ∧ other ∉ i.mentioned ∧ other ∉ protectedNames then none
          else i.repository.property? (contentPath parent name) other := by
  have hboth := outcome_openFile_of_stored hopened hover hfile hcontent hmodified data mediaType
  obtain ⟨k, hk, hfirst⟩ := isClosed_closeNode (i := { i with
    opened := contentPath parent name :: filePath parent name :: parent :: rest }) rfl
  obtain ⟨j, hj, hsecond⟩ := isClosed_closeNode hfirst.opened
  have hcalls : (fileCalls name data mediaType modified).forM perform =
      openFile name data mediaType modified >>= fun _ => closeNode >>= fun _ =>
        closeNode >>= fun _ => pure () := rfl
  refine ⟨j, ?_, fun other hcontentWaits hfileWaits => ?_⟩
  · rw [hcalls, outcome_bind_of_ok hboth, outcome_bind_of_ok hk, outcome_bind_of_ok hj]
    rfl
  · have hwaits : k.waits (contentPath parent name) other (filePath parent name) = [] := by
      rw [hfirst.waits]
      split
      · rfl
      · exact hfileWaits
    -- the file is not its content, but closing it would remove nothing more anyway
    rw [hsecond.property _ other hwaits, hfirst.property _ other hcontentWaits, hfirst.options,
      hfirst.mentioned]
    split <;> simp_all

end Stored

/-- A file whose content was modified in the year 2020. -/
def filedRepository : Repository :=
  Repository.run
    [ .addNode "/" "f" fileType, .addNode "/f" contentName resourceType,
      .setProperty "/f/jcr:content" modifiedName (.single (.date "2020-01-01T00:00:00.000+00:00")),
      .setProperty "/f/jcr:content" dataName (.single (.binary [111, 108, 100])) ]
    (.new .standard)

/-- An import that merges properties, into the root of that repository. -/
def filedImport : Import := prepared { propertyMerge := true } 0 filedRepository "/" none

theorem property?_storedFile_filed :
    filedImport.repository.property? "/f/jcr:content" dataName =
        some (.single (.binary [111, 108, 100])) ∧
      ∃ j, outcome ((fileCalls "f" (.ok [110]) none 1000).forM perform) filedImport = (.ok (), j) ∧
        j.repository.property? "/f/jcr:content" dataName = none := by
  have hopened : filedImport.opened = "/" :: [] := by decide +kernel
  have hfile : filedImport.repository.hasNode (filePath "/" "f") = true := by decide +kernel
  have hcontent : filedImport.repository.hasNode (contentPath "/" "f") = true := by decide +kernel
  have hmodified : 1000 ≤ storedModified filedImport.repository (contentPath "/" "f") := by
    decide +kernel
  obtain ⟨j, hj, hproperty⟩ :=
    property?_storedFile hopened rfl hfile hcontent hmodified (.ok [110]) none
  have hpath : contentPath "/" "f" = "/f/jcr:content" := by decide +kernel
  refine ⟨by decide +kernel, j, hj, ?_⟩
  rw [← hpath, hproperty dataName (by decide +kernel) (by decide +kernel)]
  decide +kernel

/-- **A file that is not replaced does not always keep its content.** With the option to merge
properties it loses the data. -/
theorem storedFile_not_kept :
    ¬ ∀ (options : ImportOptions) (clock : Int) (r : Repository) (target : String)
      (top : Option String) (before : List Action) (parent : String) (rest : List String)
      (name : String) (data : Except FileError Bytes) (mediaType : Option String) (modified : Int),
      r.Reachable → options.overwrite = false →
      (session options clock r target top before).opened = parent :: rest →
      (session options clock r target top before).repository.hasNode (filePath parent name) =
        true →
      (session options clock r target top before).repository.hasNode (contentPath parent name) =
        true →
      ((session options clock r target top before).repository.property? (contentPath parent name)
        dataName).isSome = true →
      modified ≤ storedModified (session options clock r target top before).repository
        (contentPath parent name) →
      ∀ other, (session options clock r target top (before ++
            (fileCalls name data mediaType modified).map .call)).repository.property?
          (contentPath parent name) other =
        (session options clock r target top before).repository.property?
          (contentPath parent name) other := by
  intro hkept
  have hdata := hkept { propertyMerge := true } 0 filedRepository "/" none [] "/" [] "f"
    (.ok [110]) none 1000 ((Repository.Reachable.new .standard).run _) rfl (by decide +kernel)
    (by decide +kernel) (by decide +kernel) (by decide +kernel) (by decide +kernel) dataName
  exact absurd hdata (by decide +kernel)

end ContentImport.Import
