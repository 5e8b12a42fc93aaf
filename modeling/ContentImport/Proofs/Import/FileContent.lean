import ContentImport.Proofs.Import.Nodes
import ContentImport.Proofs.Import.StoredFile
import Mathlib.Data.Prod.Basic

/-!
# The content that a call for a file leaves

A call for a file that does not fail leaves the file and its content open. The content has the data
offered if the call replaces it, and the data that it had if not (`property?_openFile`). So a node
of the file's name that has no data, such as a folder, gets a content node without any unless the
moment of the call is positive: a missing moment of modification counts as zero, and the call is not
newer than that (`openFile_without_data`).

* `Sets` is what setting a property of the content comes to, and `WritesContent` what writing the
  whole content does. Writing succeeds if the data can be read and the moment has a text
  (`writes_writeContent`), and only then (`writeContent_ok`).
* `openFile_ok` takes a call that succeeds apart: both nodes are opened, and then the content is
  written if it is to be replaced.
-/

namespace ContentImport.Import

variable {i j k : Import} {node parent name file : String} {rest : List String}

/-! ## Writing the content -/

/-- Two imports differ at most in properties, in the stand-ins that wait and in what the content
mentions. -/
abbrev SamePlaces (i j : Import) : Prop := SameNodes { i with mentioned := j.mentioned } j

theorem SameNodes.mentioning (h : SamePlaces i j) (h' : SamePlaces j k) : SamePlaces i k :=
  ⟨h'.options.trans h.options, h'.opened.trans h.opened, rfl, h'.waiting.trans h.waiting,
    fun path => (h'.identifier path).trans (h.identifier path)⟩

/-- From one import to another a property of a node was set and counts as mentioned, and nothing
else changed. -/
structure Sets (node name : String) (v : Value) (i j : Import) : Prop where
  same : SamePlaces i j
  mentioned : j.mentioned = including i.mentioned name
  property : ∀ owner other, j.repository.property? owner other =
    if owner = node ∧ other = name then some (.single v) else i.repository.property? owner other

theorem sets_setFileProperty (hopened : i.opened = node :: rest)
    (hnode : i.repository.hasNode node = true) (name : String) (v : Value) :
    ∃ j, outcome (setFileProperty name v) i = (.ok (), j) ∧ Sets node name v i j := by
  obtain ⟨n, hn⟩ := Repository.exists_node?_of_hasNode hnode
  refine ⟨_, outcome_setFileProperty hopened hn name v,
    ⟨rfl, rfl, rfl, rfl, map_identifier_insert hn _⟩, rfl, fun owner other => ?_⟩
  split
  · next h =>
    obtain ⟨rfl, rfl⟩ := h
    rw [Repository.property?, Repository.node?, Table.get?_insert, if_pos rfl, Option.bind_some,
      Table.get?_insert, if_pos rfl]
  · next h =>
    refine property?_replace hn fun hnode => ?_
    rw [Table.get?_insert, if_neg fun hname => h ⟨hnode.symm, hname.symm⟩]

/-- From one import to another the content of a file was written. -/
structure WritesContent (content : String) (bytes : Bytes) (text : String) (i j : Import) : Prop
    where
  same : SamePlaces i j
  mentioned : ∀ name ∈ [modifiedName, dataName], name ∈ j.mentioned
  modified : j.repository.property? content modifiedName = some (.single (.date text))
  data : j.repository.property? content dataName = some (.single (.binary bytes))

section Write

variable {modified : Int} (hopened : i.opened = node :: rest)
  (hnode : i.repository.hasNode node = true)

include hopened hnode

/-- **The content is written if the moment has a text.** -/
theorem writes_writeContent {text : String}
    (htext : Timestamp.render? (if modified ≤ 0 then i.clock else modified) = some text)
    (file name : String) (bytes : Bytes) (mediaType : Option String) :
    ∃ j, outcome (writeContent file name (.ok bytes) mediaType modified) i = (.ok (), j) ∧
      WritesContent node bytes text i j := by
  obtain ⟨i₁, houtcome₁, h₁⟩ := sets_setFileProperty hopened hnode mediaTypeName
    (.string (mediaType.getD (MediaType.ofName name)))
  have hopened₁ : i₁.opened = node :: rest := h₁.same.opened.trans hopened
  have hnode₁ : i₁.repository.hasNode node = true := (h₁.same.hasNode node).trans hnode
  obtain ⟨i₂, houtcome₂, h₂⟩ := sets_setFileProperty hopened₁ hnode₁ modifiedName (.date text)
  have hopened₂ : i₂.opened = node :: rest := h₂.same.opened.trans hopened₁
  have hnode₂ : i₂.repository.hasNode node = true := (h₂.same.hasNode node).trans hnode₁
  obtain ⟨j, houtcome₃, h₃⟩ := sets_setFileProperty hopened₂ hnode₂ dataName (.binary bytes)
  have hne : modifiedName ≠ dataName := by decide
  refine ⟨j, ?_, (h₁.same.mentioning h₂.same).mentioning h₃.same, ?_, ?_, ?_⟩
  · rw [writeContent, outcome_bind_of_ok (outcome_get i)]
    dsimp only
    rw [outcome_bind_of_ok houtcome₁, htext]
    dsimp only
    rw [outcome_bind_of_ok houtcome₂, houtcome₃]
  · rw [h₃.mentioned, h₂.mentioned]
    simp [mem_including_iff]
  · rw [h₃.property, if_neg fun h => hne h.2, h₂.property, if_pos ⟨rfl, rfl⟩]
  · rw [h₃.property, if_pos ⟨rfl, rfl⟩]

/-- The content is not written unless the data can be read and the moment has a text. -/
theorem writeContent_ok {data : Except FileError Bytes} {mediaType : Option String}
    (h : outcome (writeContent file name data mediaType modified) i = (.ok (), j)) :
    ∃ bytes text, data = .ok bytes ∧
      Timestamp.render? (if modified ≤ 0 then i.clock else modified) = some text ∧
      WritesContent node bytes text i j := by
  cases data with
  | error e =>
    rw [writeContent, outcome_bind_of_ok (outcome_get i)] at h
    cases h
  | ok bytes =>
    cases htext : Timestamp.render? (if modified ≤ 0 then i.clock else modified) with
    | none =>
      obtain ⟨i₁, houtcome₁, -⟩ := sets_setFileProperty hopened hnode mediaTypeName
        (.string (mediaType.getD (MediaType.ofName name)))
      rw [writeContent, outcome_bind_of_ok (outcome_get i)] at h
      dsimp only at h
      rw [outcome_bind_of_ok houtcome₁, htext] at h
      cases h
    | some text =>
      obtain ⟨k, hk, hwrites⟩ :=
        writes_writeContent hopened hnode htext file name bytes mediaType
      obtain rfl := congrArg Prod.snd (hk.symm.trans h)
      exact ⟨bytes, text, rfl, rfl, hwrites⟩

end Write

/-! ## Calls for files -/

/-- Whether a call for a file replaces its content. -/
def replacesFile (i : Import) (file : String) (modified : Int) : Bool :=
  i.options.overwrite || writesFile i file modified

theorem replacesFile_of_new (hnew : i.repository.hasNode file = false) (modified : Int) :
    i.replacesFile file modified = true := by
  rw [replacesFile, writesFile, hnew]
  exact Bool.or_true _

/-- Both nodes of a file were opened. Unless existing nodes are overwritten, no property was
disturbed. -/
structure OpensFile (parent name : String) (rest : List String) (i k : Import) : Prop where
  opened : k.opened = contentPath parent name :: filePath parent name :: parent :: rest
  file : k.repository.hasNode (filePath parent name) = true
  content : k.repository.hasNode (contentPath parent name) = true
  undisturbed : i.options.overwrite = false → ∀ owner other, Undisturbed owner other i k

/-- Opens the nodes of a file that is new. -/
def openNewFile (name : String) : Step Unit := do
  openNode (some (Text.afterLast '/' name)) (some fileType) []
  openNode (some contentName) (some resourceType) []

/-- A call for a file first opens both nodes, in one of two ways. -/
theorem outcome_openFile (hopened : i.opened = parent :: rest) (name : String)
    (data : Except FileError Bytes) (mediaType : Option String) (modified : Int) :
    outcome (openFile name data mediaType modified) i =
      if i.repository.hasNode (filePath parent name) then
        outcome (do
          if ← openStoredFile (filePath parent name) modified then
            writeContent (filePath parent name) (Text.afterLast '/' name) data mediaType modified) i
      else
        outcome (openNewFile name >>= fun _ =>
          writeContent (filePath parent name) (Text.afterLast '/' name) data mediaType
            modified) i := by
  rw [openFile, outcome_bind_of_ok (outcome_current hopened), outcome_bind_of_ok (outcome_get i),
    ← apply_ite (outcome · i), openNewFile, bind_assoc]
  rfl

theorem opensFile_openNewFile (hopened : i.opened = parent :: rest)
    (h : outcome (openNewFile name) i = (.ok (), k)) : OpensFile parent name rest i k := by
  obtain ⟨_, j, hfile, hcontent⟩ := outcome_bind_eq_ok h
  rw [outcome_openNode_some hopened] at hfile
  have hopens := openChild_ok hfile
  rw [outcome_openNode_some hopens.opened] at hcontent
  have hopens' := openChild_ok hcontent
  have hbelow : Path.isWithin (filePath parent name) (contentPath parent name) = false :=
    Path.isWithin_join_eq_false (Path.isWithin_refl _) (Path.join_ne_root (by decide))
  refine ⟨?_, hopens'.outside.hasNode hbelow hopens.hasNode, hopens'.hasNode, ?_⟩
  · rw [hopens'.opened, hopens.opened, hopened]
    rfl
  · intro hover owner other
    have hover' : j.options.overwrite = false := hopens.options ▸ hover
    exact (undisturbed_of_openChild_ok hover hfile owner other).trans
      (undisturbed_of_openChild_ok hover' hcontent owner other)

theorem opensFile_openStoredFile {modified : Int} {replaces : Bool}
    (hopened : i.opened = parent :: rest)
    (hfile : i.repository.hasNode (filePath parent name) = true)
    (h : outcome (openStoredFile (filePath parent name) modified) i = (.ok replaces, k)) :
    OpensFile parent name rest i k ∧
      replaces = i.replacesFile (filePath parent name) modified := by
  rcases openStoredFile_cases hfile modified with ⟨e, hfail⟩ | ⟨k', hok, hk, hnode, hspared⟩
  · cases hfail.symm.trans h
  obtain ⟨hreplaces, rfl⟩ := Prod.mk.inj (hok.symm.trans h)
  refine ⟨⟨?_, (hspared "" "").hasNode hfile, hnode, fun _ => hspared⟩, ?_⟩
  · rw [hk, hopened]
    rfl
  · rw [← Except.ok.inj hreplaces, replacesFile, writesFile, hfile]
    rfl

/-- **A call for a file that succeeds opens both nodes, and then writes the content if it is to be
replaced.** -/
theorem openFile_ok {data : Except FileError Bytes} {mediaType : Option String} {modified : Int}
    (h : outcome (openFile name data mediaType modified) i = (.ok (), j)) :
    ∃ parent rest k, i.opened = parent :: rest ∧ OpensFile parent name rest i k ∧
      if i.replacesFile (filePath parent name) modified then
        outcome (writeContent (filePath parent name) (Text.afterLast '/' name) data mediaType
          modified) k = (.ok (), j)
      else j = k := by
  cases hopened : i.opened with
  | nil =>
    rw [openFile, outcome_bind, outcome_current_of_nil hopened] at h
    cases h
  | cons parent rest =>
    rw [outcome_openFile hopened] at h
    cases hfile : i.repository.hasNode (filePath parent name) with
    | true =>
      rw [if_pos hfile] at h
      obtain ⟨replaces, k, hopen, hwrite⟩ := outcome_bind_eq_ok h
      obtain ⟨hopens, rfl⟩ := opensFile_openStoredFile hopened hfile hopen
      refine ⟨parent, rest, k, rfl, hopens, ?_⟩
      split
      · next hreplaces => rwa [if_pos hreplaces] at hwrite
      · next hreplaces =>
        rw [if_neg hreplaces] at hwrite
        exact (congrArg Prod.snd hwrite).symm
    | false =>
      rw [if_neg (Bool.eq_false_iff.1 hfile)] at h
      obtain ⟨_, k, hopen, hwrite⟩ := outcome_bind_eq_ok h
      refine ⟨parent, rest, k, rfl, opensFile_openNewFile hopened hopen, ?_⟩
      rwa [if_pos (replacesFile_of_new hfile modified)]

/-- **The content of a file has the data of the call if it is replaced, and else the data that it
had before.** -/
theorem property?_openFile {data : Except FileError Bytes} {mediaType : Option String}
    {modified : Int} (h : outcome (openFile name data mediaType modified) i = (.ok (), j)) :
    ∃ parent rest, i.opened = parent :: rest ∧
      j.opened = contentPath parent name :: filePath parent name :: parent :: rest ∧
      j.repository.hasNode (contentPath parent name) = true ∧
      if i.replacesFile (filePath parent name) modified then
        ∃ bytes, data = .ok bytes ∧ j.repository.property? (contentPath parent name) dataName =
          some (.single (.binary bytes))
      else j.repository.property? (contentPath parent name) dataName =
        i.repository.property? (contentPath parent name) dataName := by
  obtain ⟨parent, rest, k, hopened, hopens, hwritten⟩ := openFile_ok h
  refine ⟨parent, rest, hopened, ?_⟩
  split at hwritten
  · next hreplaces =>
    obtain ⟨bytes, text, hdata, -, hwrites⟩ :=
      writeContent_ok hopens.opened hopens.content hwritten
    rw [if_pos hreplaces]
    exact ⟨hwrites.same.opened.trans hopens.opened,
      (hwrites.same.hasNode _).trans hopens.content, bytes, hdata, hwrites.data⟩
  · next hreplaces =>
    subst hwritten
    have hover : i.options.overwrite = false := by
      rw [replacesFile, Bool.or_eq_true, not_or] at hreplaces
      exact Bool.eq_false_iff.2 hreplaces.1
    rw [if_neg hreplaces]
    exact ⟨hopens.opened, hopens.content, (hopens.undisturbed hover _ dataName).property⟩

/-- A repository with a folder. -/
def folderRepository : Repository :=
  Repository.run [.addNode "/" "f" folderType] (.new .standard)

/-- An import into the root of that repository. -/
def folderImport : Import := prepared {} 0 folderRepository "/" none

/-- The import after a call for a file of the folder's name that has no moment of modification. -/
def folderOpened : Import := (outcome (openFile "f" (.ok [120]) none 0) folderImport).2

theorem outcome_folderImport :
    outcome (openFile "f" (.ok [120]) none 0) folderImport = (.ok (), folderOpened) :=
  Prod.fst_eq_iff.1 (by decide +kernel)

theorem property?_openFile_folder :
    folderOpened.opened = ["/f/jcr:content", "/f", "/"] ∧
      folderOpened.repository.property? "/f/jcr:content" dataName = none := by
  obtain ⟨parent, rest, hopened, hleft, -, hdata⟩ := property?_openFile outcome_folderImport
  obtain ⟨rfl, rfl⟩ := List.cons.inj hopened
  have hkept : ¬ folderImport.replacesFile (filePath "/" "f") 0 = true := by decide +kernel
  have hpath : contentPath "/" "f" = "/f/jcr:content" := by decide +kernel
  refine ⟨hleft.trans (by decide +kernel), ?_⟩
  rw [if_neg hkept, hpath] at hdata
  exact hdata.trans (by decide +kernel)

/-- **A call for a file does not always leave a content with data.** A folder of that name does not
get any if there is no moment of modification. -/
theorem openFile_without_data :
    ¬ ∀ (options : ImportOptions) (clock : Int) (r : Repository) (target : String)
      (top : Option String) (before : List Action) (name : String)
      (data : Except FileError Bytes) (mediaType : Option String) (modified : Int) (j : Import),
      r.Reachable →
      outcome (openFile name data mediaType modified) (session options clock r target top before) =
        (.ok (), j) →
      ∃ content rest, j.opened = content :: rest ∧
        (j.repository.property? content dataName).isSome = true ∧
        ((session options clock r target top before).repository.property? content dataName = none →
          ∃ bytes, data = .ok bytes ∧
            j.repository.property? content dataName = some (.single (.binary bytes))) := by
  intro hleft
  obtain ⟨content, rest, hopened, hdata, -⟩ := hleft {} 0 folderRepository "/" none [] "f"
    (.ok [120]) none 0 folderOpened ((Repository.Reachable.new .standard).run _)
    outcome_folderImport
  have hcontent : folderOpened.opened = ["/f/jcr:content", "/f", "/"] := by decide +kernel
  obtain ⟨rfl, -⟩ := List.cons.inj (hcontent.symm.trans hopened)
  exact absurd hdata (by decide +kernel)

end ContentImport.Import
