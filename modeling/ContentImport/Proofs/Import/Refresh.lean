import ContentImport.Proofs.Import.FileContent
import ContentImport.Proofs.Time.Timestamp

/-!
# Files that are refreshed

A file that was stored with one moment of modification and is offered again with another one is
replaced if the second is later, and left as it is if not (`openFile_again`). The first moment is
there as a text only, so this rests on its being read back (`Timestamp.read?_render`).

Closing the nodes of the file may get in between. A property of the content that waits for one of
them is written then, whatever the call for the file has stored (`AwaitsFile`, `StoresFile`). If
that is the moment of modification, there is none to compare with any more, and the file is replaced
by an older one (`replaced_by_older`).
-/

namespace ContentImport.Import

variable {i j k : Import} {node content parent name : String} {rest : List String}

/-! ## The stored moment -/

/-- The text of a moment stands for that moment. -/
theorem storedModified_of_date {r : Repository} {moment : Int} {text : String}
    (hrender : Timestamp.render? moment = some text)
    (hproperty : r.property? content modifiedName = some (.single (.date text))) :
    storedModified r content = moment := by
  rw [storedModified, hproperty]
  simp only [Option.bind_some, Property.value?, Timestamp.read?_render hrender, Option.getD_some]

/-- A reference is no moment. -/
theorem storedModified_of_reference {r : Repository}
    (htype : (r.property? content modifiedName).map Property.type = some .reference) :
    storedModified r content = 0 := by
  obtain ⟨property, hproperty, htype⟩ := Option.map_eq_some_iff.1 htype
  rw [storedModified, hproperty]
  rcases property with (v | ⟨type, values⟩)
  · cases v <;> first | rfl | cases htype
  · rfl

/-! ## Closing the nodes of a file -/

/-- A property of the content of a file waits for one of the nodes of the file. -/
def AwaitsFile (i : Import) (parent name property : String) : Prop :=
  i.waits (contentPath parent name) property (contentPath parent name) ≠ [] ∨
    i.waits (contentPath parent name) property (filePath parent name) ≠ []

instance (i : Import) (parent name property : String) :
    Decidable (i.AwaitsFile parent name property) :=
  inferInstanceAs (Decidable (_ ∨ _))

/-- Both nodes of a file were closed. A property of the content that is mentioned is left as it was,
unless it waits for one of them: then it is one of references. -/
structure ClosesFile (parent name : String) (rest : List String) (i j : Import) : Prop where
  options : j.options = i.options
  opened : j.opened = parent :: rest
  hasNode : ∀ path, j.repository.hasNode path = i.repository.hasNode path
  property : ∀ other, other ∈ i.mentioned →
    if i.AwaitsFile parent name other then
      (j.repository.property? (contentPath parent name) other).map Property.type = some .reference
    else j.repository.property? (contentPath parent name) other =
      i.repository.property? (contentPath parent name) other

/-- A property that the content mentions is not removed when a node is closed. -/
theorem IsClosed.property_of_mentioned (h : IsClosed node rest i j) {owner other : String}
    (hwaits : i.waits owner other node = []) (hmentioned : other ∈ i.mentioned) :
    j.repository.property? owner other = i.repository.property? owner other := by
  rw [h.property owner other hwaits, if_neg fun hdropped => hdropped.2.2.1 hmentioned]

/-- Closing both nodes of a file leaves what `ClosesFile` says. -/
theorem closesFile_closeNode
    (hopened : i.opened = contentPath parent name :: filePath parent name :: parent :: rest)
    (hfile : i.repository.hasNode (filePath parent name) = true)
    (hcontent : i.repository.hasNode (contentPath parent name) = true) :
    ∃ j, outcome ([Call.closeNode, .closeNode].forM perform) i = (.ok (), j) ∧
      ClosesFile parent name rest i j := by
  obtain ⟨k, hk, hfirst⟩ := isClosed_closeNode hopened
  obtain ⟨j, hj, hsecond⟩ := isClosed_closeNode hfirst.opened
  have hcalls : [Call.closeNode, .closeNode].forM perform =
      closeNode >>= fun _ => closeNode >>= fun _ => pure () := rfl
  refine ⟨j, by rw [hcalls, outcome_bind_of_ok hk, outcome_bind_of_ok hj, outcome_pure], ?_⟩
  refine ⟨hsecond.options.trans hfirst.options, hsecond.opened,
    fun path => (hsecond.hasNode path).trans (hfirst.hasNode path), fun other hmentioned => ?_⟩
  have hfile' := (hfirst.hasNode _).trans hfile
  have hcontent' := (hfirst.hasNode _).trans hcontent
  have hmentioned' : other ∈ k.mentioned := hfirst.mentioned ▸ hmentioned
  have hwaits := hfirst.waits (contentPath parent name) other (filePath parent name)
  by_cases hlater : k.waits (contentPath parent name) other (filePath parent name) = []
  · rw [hsecond.property_of_mentioned hlater hmentioned']
    by_cases hnow : i.waits (contentPath parent name) other (contentPath parent name) = []
    · have hquiet : i.waits (contentPath parent name) other (filePath parent name) = [] := by
        split at hwaits
        · next hsame => rw [hsame, hnow]
        · exact hwaits.symm.trans hlater
      rw [if_neg (by rw [AwaitsFile, hnow, hquiet]; simp)]
      exact hfirst.property_of_mentioned hnow hmentioned
    · rw [if_pos (.inl hnow)]
      exact hfirst.settled hcontent _ other hcontent hnow
  · have hawaits : i.waits (contentPath parent name) other (filePath parent name) ≠ [] := by
      split at hwaits
      · exact absurd hwaits hlater
      · exact hwaits ▸ hlater
    rw [if_pos (.inr hawaits)]
    exact hsecond.settled hfile' _ other hcontent' hlater

/-! ## A file that is stored -/

/-- A file was stored that was not there: its content has the moment and the data, unless one of
these properties was waiting for the file. -/
structure StoresFile (parent name : String) (rest : List String) (bytes : Bytes) (text : String)
    (i j : Import) : Prop where
  options : j.options = i.options
  opened : j.opened = parent :: rest
  file : j.repository.hasNode (filePath parent name) = true
  content : j.repository.hasNode (contentPath parent name) = true
  modified : if i.AwaitsFile parent name modifiedName then
      (j.repository.property? (contentPath parent name) modifiedName).map Property.type =
        some .reference
    else j.repository.property? (contentPath parent name) modifiedName = some (.single (.date text))
  data : if i.AwaitsFile parent name dataName then
      (j.repository.property? (contentPath parent name) dataName).map Property.type =
        some .reference
    else j.repository.property? (contentPath parent name) dataName = some (.single (.binary bytes))

section Stored

variable {bytes : Bytes} {mediaType : Option String} {moment : Int}

/-- **A file that is not there is stored by the calls for it,** if they succeed. -/
theorem storesFile_fileCalls (hopened : i.opened = parent :: rest)
    (hover : i.options.overwrite = false)
    (hnew : i.repository.hasNode (filePath parent name) = false) (hmoment : 1 ≤ moment)
    (h : outcome ((fileCalls name (.ok bytes) mediaType moment).forM perform) i = (.ok (), j)) :
    ∃ text, Timestamp.render? moment = some text ∧ StoresFile parent name rest bytes text i j := by
  have hcalls : (fileCalls name (.ok bytes) mediaType moment).forM perform =
      openFile name (.ok bytes) mediaType moment >>= fun _ =>
        [Call.closeNode, .closeNode].forM perform := rfl
  rw [hcalls] at h
  obtain ⟨_, l, hopen, hclose⟩ := outcome_bind_eq_ok h
  obtain ⟨_, _, k, hopened', hopens, hwritten⟩ := openFile_ok hopen
  obtain ⟨rfl, rfl⟩ := List.cons.inj (hopened.symm.trans hopened')
  rw [if_pos (replacesFile_of_new hnew moment)] at hwritten
  obtain ⟨_, text, hdata, htext, hwrites⟩ :=
    writeContent_ok hopens.opened hopens.content hwritten
  obtain rfl := Except.ok.inj hdata
  obtain ⟨j', hj, hcloses⟩ := closesFile_closeNode (hwrites.same.opened.trans hopens.opened)
    ((hwrites.same.hasNode _).trans hopens.file) ((hwrites.same.hasNode _).trans hopens.content)
  obtain rfl := congrArg Prod.snd (hj.symm.trans hclose)
  have hundisturbed := hopens.undisturbed hover
  have hawaits : ∀ other, l.AwaitsFile parent name other ↔ i.AwaitsFile parent name other := by
    intro other
    have hwaits : ∀ node, l.waits (contentPath parent name) other node =
        i.waits (contentPath parent name) other node := by
      intro node
      rw [waits, hwrites.same.waiting]
      exact (hundisturbed (contentPath parent name) other).waits node
    rw [AwaitsFile, AwaitsFile, hwaits, hwaits]
  have hmodified := hcloses.property modifiedName (hwrites.mentioned _ (by simp))
  have hdata := hcloses.property dataName (hwrites.mentioned _ (by simp))
  simp only [hawaits, hwrites.modified, hwrites.data] at hmodified hdata
  rw [if_neg (by omega)] at htext
  refine ⟨text, htext, ?_, hcloses.opened, ?_, ?_, hmodified, hdata⟩
  · exact hcloses.options.trans (hwrites.same.options.trans (hundisturbed "" "").options)
  · exact (hcloses.hasNode _).trans ((hwrites.same.hasNode _).trans hopens.file)
  · exact (hcloses.hasNode _).trans ((hwrites.same.hasNode _).trans hopens.content)

/-- The moment of a file that is stored is read as the one it was stored with, unless it was waiting
for the file. -/
theorem StoresFile.storedModified_eq {text : String}
    (h : StoresFile parent name rest bytes text i j)
    (htext : Timestamp.render? moment = some text) :
    storedModified j.repository (contentPath parent name) =
      if i.AwaitsFile parent name modifiedName then 0 else moment := by
  have hmodified := h.modified
  split at hmodified
  · next hawaits => rw [if_pos hawaits, storedModified_of_reference hmodified]
  · next hawaits => rw [if_neg hawaits, storedModified_of_date htext hmodified]

/-- A call for a file that is there replaces its content if the call is newer. -/
theorem exists_outcome_openFile_of_stored {text : String} (hopened : i.opened = parent :: rest)
    (hover : i.options.overwrite = false)
    (hfile : i.repository.hasNode (filePath parent name) = true)
    (hcontent : i.repository.hasNode (contentPath parent name) = true) (hmoment : 1 ≤ moment)
    (htext : Timestamp.render? moment = some text) (bytes : Bytes) (mediaType : Option String) :
    ∃ j, outcome (openFile name (.ok bytes) mediaType moment) i = (.ok (), j) ∧
      if storedModified i.repository (contentPath parent name) < moment then
        j.repository.property? (contentPath parent name) dataName = some (.single (.binary bytes)) ∧
        j.repository.property? (contentPath parent name) modifiedName = some (.single (.date text))
      else
        j.repository.property? (contentPath parent name) dataName =
          i.repository.property? (contentPath parent name) dataName ∧
        j.repository.property? (contentPath parent name) modifiedName =
          i.repository.property? (contentPath parent name) modifiedName := by
  split
  · next hnewer =>
    have hopen := outcome_openStoredFile (i := i) hcontent moment
    obtain ⟨j, hj, hwrites⟩ := writes_writeContent
      (i := { i with opened := contentPath parent name :: filePath parent name :: i.opened })
      rfl hcontent ((congrArg _ (if_neg (by omega))).trans htext) (filePath parent name)
      (Text.afterLast '/' name) bytes mediaType
    refine ⟨j, ?_, hwrites.data, hwrites.modified⟩
    rw [outcome_openFile hopened, if_pos hfile, outcome_bind_of_ok hopen, hover]
    exact (congrArg (outcome · _) (if_pos (decide_eq_true hnewer))).trans hj
  · next hold =>
    have hkept := outcome_openFile_of_stored hopened hover hfile hcontent (Int.not_lt.1 hold)
    exact ⟨_, hkept (.ok bytes) mediaType, rfl, rfl⟩

end Stored

/-- **A file that was stored is replaced just by a newer one**, unless its moment of modification
was waiting for the file: a reference takes the place of the moment then, and any file is newer. -/
theorem openFile_again {first second : Int} {old : Bytes} {text : String}
    {mediaType : Option String} (hopened : i.opened = parent :: rest)
    (hover : i.options.overwrite = false)
    (hnew : i.repository.hasNode (filePath parent name) = false)
    (hfirst : 1 ≤ first) (hsecond : 1 ≤ second)
    (htext : Timestamp.render? second = some text)
    (hcalls : outcome ((fileCalls name (.ok old) mediaType first).forM perform) i = (.ok (), j))
    (new : Bytes) (mediaType' : Option String) :
    ∃ firstText k, Timestamp.render? first = some firstText ∧
      StoresFile parent name rest old firstText i j ∧
      outcome (openFile name (.ok new) mediaType' second) j = (.ok (), k) ∧
      if first < second ∨ i.AwaitsFile parent name modifiedName then
        k.repository.property? (contentPath parent name) dataName = some (.single (.binary new)) ∧
        k.repository.property? (contentPath parent name) modifiedName = some (.single (.date text))
      else
        k.repository.property? (contentPath parent name) dataName =
          j.repository.property? (contentPath parent name) dataName ∧
        k.repository.property? (contentPath parent name) modifiedName =
          j.repository.property? (contentPath parent name) modifiedName := by
  obtain ⟨firstText, hfirstText, hstores⟩ :=
    storesFile_fileCalls hopened hover hnew hfirst hcalls
  obtain ⟨k, hk, hreplaced⟩ := exists_outcome_openFile_of_stored hstores.opened
    (hstores.options ▸ hover) hstores.file hstores.content hsecond htext new mediaType'
  have hnewer : storedModified j.repository (contentPath parent name) < second ↔
      first < second ∨ i.AwaitsFile parent name modifiedName := by
    rw [hstores.storedModified_eq hfirstText]
    split
    · next hawaits => exact ⟨fun _ => .inr hawaits, fun _ => by omega⟩
    · next hawaits => exact ⟨.inl, fun h => h.resolve_right hawaits⟩
  simp only [hnewer] at hreplaced
  exact ⟨firstText, k, hfirstText, hstores, hk, hreplaced⟩

/-- An import into the root of a new repository. -/
def rootImport : Import := prepared {} 0 (.new .standard) "/" none

/-- A millisecond is enough, beyond the year 9999 too. -/
theorem openFile_again_year10000 :
    ∃ j k, outcome ((fileCalls "f" (.ok [111]) none 253402300800000).forM perform) rootImport =
        (.ok (), j) ∧
      outcome (openFile "f" (.ok [110]) none 253402300800001) j = (.ok (), k) ∧
      k.repository.property? "/f/jcr:content" dataName = some (.single (.binary [110])) ∧
      k.repository.property? "/f/jcr:content" modifiedName =
        some (.single (.date "+10000-01-01T00:00:00.001+00:00")) := by
  have hcalls : (outcome ((fileCalls "f" (.ok [111]) none 253402300800000).forM perform)
      rootImport).1 = .ok () := by
    decide +kernel
  have hopened : rootImport.opened = "/" :: [] := by decide +kernel
  have hnew : rootImport.repository.hasNode (filePath "/" "f") = false := by decide +kernel
  have htext : Timestamp.render? 253402300800001 = some "+10000-01-01T00:00:00.001+00:00" := by
    decide +kernel
  have hpath : contentPath "/" "f" = "/f/jcr:content" := by decide +kernel
  obtain ⟨_, k, -, -, hk, hreplaced⟩ := openFile_again hopened rfl hnew (by omega) (by omega) htext
    (Prod.fst_eq_iff.1 hcalls) [110] none
  rw [if_pos (.inl (by omega)), hpath] at hreplaced
  exact ⟨_, k, Prod.fst_eq_iff.1 hcalls, hk, hreplaced⟩

/-- A property of the root whose name is the path of a file's moment of modification. -/
def strayReference : Call := .setProperty "f/jcr:content/jcr:lastModified" .reference "f"

/-- An import in which that property waits for the file. -/
def strayImport : Import := session {} 0 (.new .standard) "/" none [.call strayReference]

theorem exists_outcome_strayImport :
    ∃ j k, outcome ((fileCalls "f" (.ok [111]) none 2000).forM perform) strayImport =
        (.ok (), j) ∧
      outcome (openFile "f" (.ok [110]) none 1000) j = (.ok (), k) ∧
      k.repository.property? "/f/jcr:content" dataName ≠
        j.repository.property? "/f/jcr:content" dataName := by
  have hstored : (outcome ((fileCalls "f" (.ok [111]) none 2000).forM perform) strayImport).1 =
      .ok () := by
    decide +kernel
  have hreplaced : (outcome (openFile "f" (.ok [110]) none 1000)
      (outcome ((fileCalls "f" (.ok [111]) none 2000).forM perform) strayImport).2).1 = .ok () := by
    decide +kernel
  exact ⟨_, _, Prod.fst_eq_iff.1 hstored, Prod.fst_eq_iff.1 hreplaced, by decide +kernel⟩

/-- **A file is not always replaced just by a newer one.** A reference that waits for the file under
the path of its moment of modification takes the place of the moment. -/
theorem replaced_by_older :
    ¬ ∀ (clock : Int) (r : Repository) (target : String) (top : Option String)
      (before : List Action) (parent : String) (rest : List String) (name : String)
      (old new : Bytes) (mediaType mediaType' : Option String) (first second : Int) (text : String)
      (j k : Import),
      r.Reachable → (session {} clock r target top before).opened = parent :: rest →
      (session {} clock r target top before).repository.hasNode (filePath parent name) = false →
      1 ≤ first → 1 ≤ second → Timestamp.render? second = some text →
      outcome ((fileCalls name (.ok old) mediaType first).forM perform)
        (session {} clock r target top before) = (.ok (), j) →
      outcome (openFile name (.ok new) mediaType' second) j = (.ok (), k) →
      if first < second then
        k.repository.property? (contentPath parent name) dataName = some (.single (.binary new)) ∧
        k.repository.property? (contentPath parent name) modifiedName = some (.single (.date text))
      else
        k.repository.property? (contentPath parent name) dataName =
          j.repository.property? (contentPath parent name) dataName ∧
        k.repository.property? (contentPath parent name) modifiedName =
          j.repository.property? (contentPath parent name) modifiedName := by
  intro hnewer
  obtain ⟨j, k, hj, hk, hdata⟩ := exists_outcome_strayImport
  have htext : Timestamp.render? 1000 = some "1970-01-01T00:00:01.000+00:00" := by decide +kernel
  have hkept := hnewer 0 (.new .standard) "/" none [.call strayReference] "/" [] "f" [111] [110]
    none none 2000 1000 _ j k (.new .standard) (by decide +kernel) (by decide +kernel) (by decide)
    (by decide) htext hj hk
  have hpath : contentPath "/" "f" = "/f/jcr:content" := by decide +kernel
  rw [if_neg (by decide), hpath] at hkept
  exact hdata hkept.1

end ContentImport.Import
