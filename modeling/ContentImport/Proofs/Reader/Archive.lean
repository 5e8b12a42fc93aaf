import ContentImport.Proofs.Import.Merge
import ContentImport.Proofs.Reader.Mirror

/-!
# Archives that are mirrored

An archive whose files lie apart from each other is imported as a mirror of its files
(`mirrors_load`).

* The steps of a file all succeed: the folders on the way are opened (`exists_outcome_openPath`),
  the file and its content are added and written (`exists_outcome_content`).
* From one file to the next, the files that were read so far are mirrored (`exists_outcome_files`).
-/

namespace ContentImport

namespace Repository

/-- A node is added as a leaf. -/
theorem exists_outcome_addNode {r : Repository} {parent name : String} {n : Node}
    (hname : Path.isName name = true) (hn : r.node? parent = some n)
    (hnew : r.hasNode (Path.join parent name) = false) (type : String) :
    ∃ r', outcome (addNode parent name type) r = (.ok (Path.join parent name), r') ∧
      ∀ q, r'.node? q =
        if Path.join parent name = q then some { identifier := identifier r.serial, type := type }
        else if parent = q then some { n with children := n.children ++ [name] }
        else r.node? q := by
  rw [outcome_addNode]
  simp only [hname, hnew, hn]
  exact ⟨_, rfl, fun q => (Table.get?_insert ..).trans (congrArg (ite _ _) (Table.get?_insert ..))⟩

end Repository

namespace ArchiveReader

open ContentImport.Path (below)

variable {i : Import} {opened rest : List String} {top node parent name : String}

/-! ## Single steps -/

/-- An import with the options of the default, in which nothing waits for a node. -/
structure IsReady (i : Import) (opened : List String) : Prop where
  opened : i.opened = opened
  options : i.options = {}
  clock : (Timestamp.render? i.clock).isSome = true
  waiting : ∀ node, i.waiting.get? node = none

theorem exists_outcome_openChild (hready : IsReady i opened) (hname : Path.isName name = true)
    {n : Node} (hn : i.repository.node? parent = some n)
    (hnew : i.repository.hasNode (Path.join parent name) = false) (type : String) :
    ∃ i' m, outcome (Import.openChild parent name (some type) []) i = (.ok (), i') ∧
      IsReady i' (Path.join parent name :: opened) ∧ m.type = type ∧ m.children = [] ∧
      ∀ q, i'.repository.node? q =
        if Path.join parent name = q then some m
        else if parent = q then some { n with children := n.children ++ [name] }
        else i.repository.node? q := by
  obtain ⟨r', hadd, hr'⟩ := Repository.exists_outcome_addNode hname hn hnew type
  have hover : i.options.overwrite = false := by rw [hready.options]
  refine ⟨i.withOpen r' (i.created ++ [Path.join parent name]) (Path.join parent name),
    { identifier := Repository.identifier i.repository.serial, type := type },
    ?_, ?_, rfl, rfl, hr'⟩
  · rw [Import.openChild]
    simp [hover, hnew, Import.outcome_discard, hadd, Import.recordCreated, Import.addMixins,
      Import.withOpen]
  · exact ⟨congrArg _ hready.opened, hready.options, hready.clock, hready.waiting⟩

theorem exists_outcome_closeNode (hready : IsReady i (node :: rest)) :
    ∃ i', outcome Import.closeNode i = (.ok (), i') ∧ IsReady i' rest ∧
      i'.repository = i.repository := by
  have hmerge : i.options.propertyMerge = false := by rw [hready.options]
  refine ⟨_, Import.outcome_closeNode_of_none hready.opened hmerge (hready.waiting node), ?_, rfl⟩
  exact ⟨rfl, hready.options, hready.clock, hready.waiting⟩

theorem exists_outcome_setFileProperty (hready : IsReady i (node :: rest)) {n : Node}
    (hn : i.repository.node? node = some n) (name : String) (v : Value) :
    ∃ i', outcome (Import.setFileProperty name v) i = (.ok (), i') ∧ IsReady i' (node :: rest) ∧
      ∀ q, i'.repository.node? q =
        if node = q then some { n with properties := n.properties.insert name (.single v) }
        else i.repository.node? q := by
  refine ⟨_, Import.outcome_setFileProperty hready.opened hn name v,
    ⟨hready.opened, hready.options, hready.clock, hready.waiting⟩, ?_⟩
  exact fun q => Table.get?_insert ..

/-- The content of a file is written into the node that is open. -/
theorem exists_outcome_writeContent (hready : IsReady i (node :: rest)) {n : Node}
    (hn : i.repository.node? node = some n) (file name : String) (data : Bytes) :
    ∃ i' m, outcome (Import.writeContent file name (.ok data) none 0) i = (.ok (), i') ∧
      IsReady i' (node :: rest) ∧ m.type = n.type ∧ m.children = n.children ∧
      m.properties.get? Import.dataName = some (.single (.binary data)) ∧
      ∀ q, i'.repository.node? q = if node = q then some m else i.repository.node? q := by
  obtain ⟨text, htext⟩ := Option.isSome_iff_exists.1 hready.clock
  let n₁ : Node := { n with
    properties :=
      n.properties.insert Import.mediaTypeName (.single (.string (MediaType.ofName name))) }
  let n₂ : Node := { n₁ with
    properties := n₁.properties.insert Import.modifiedName (.single (.date text)) }
  let n₃ : Node := { n₂ with
    properties := n₂.properties.insert Import.dataName (.single (.binary data)) }
  obtain ⟨i₁, h₁, hready₁, hr₁⟩ := exists_outcome_setFileProperty hready hn Import.mediaTypeName
    (.string (MediaType.ofName name))
  have hn₁ : i₁.repository.node? node = some n₁ := (hr₁ node).trans (if_pos rfl)
  obtain ⟨i₂, h₂, hready₂, hr₂⟩ := exists_outcome_setFileProperty hready₁ hn₁
    Import.modifiedName (.date text)
  have hn₂ : i₂.repository.node? node = some n₂ := (hr₂ node).trans (if_pos rfl)
  obtain ⟨i₃, h₃, hready₃, hr₃⟩ := exists_outcome_setFileProperty hready₂ hn₂ Import.dataName
    (.binary data)
  refine ⟨i₃, n₃, ?_, hready₃, rfl, rfl, (Table.get?_insert ..).trans (if_pos rfl), fun q => ?_⟩
  · rw [Import.writeContent]
    simp [htext, h₁, h₂, h₃]
  · rw [hr₃]
    split
    · rfl
    · next hq => rw [hr₂, if_neg hq, hr₁, if_neg hq]

/-- What lies on a way is its beginning, or lies behind the first name. -/
theorem between_iff {α : Type} {lead l names : List α} {name : α} :
    lead <+: l ∧ l <+: lead ++ [name] ++ names ↔
      l = lead ∨ lead ++ [name] <+: l ∧ l <+: lead ++ [name] ++ names := by
  have hfirst : lead <+: lead ++ [name] := List.prefix_append ..
  have hwhole : lead ++ [name] <+: lead ++ [name] ++ names := List.prefix_append ..
  constructor
  · rintro ⟨hlong, hshort⟩
    rcases List.prefix_or_prefix_of_prefix hshort hwhole with hl | hl
    · rcases List.prefix_concat_iff.1 hl with rfl | hl
      · exact .inr ⟨List.prefix_rfl, hwhole⟩
      · exact .inl (hl.eq_of_length_le hlong.length_le)
    · exact .inr ⟨hl, hshort⟩
  · rintro (rfl | ⟨hlong, hshort⟩)
    · exact ⟨List.prefix_rfl, hfirst.trans hwhole⟩
    · exact ⟨hfirst.trans hlong, hshort⟩

/-- One folder on a way is passed, and is added if it is missing. -/
theorem exists_descend_cons {folders : List String → Prop} {files : List UnpackedFile}
    {lead : List String} {name : String} (htop : top ≠ "") (hready : IsReady i opened)
    (hnamed : IsNamed folders files) (h : Mirrors i.repository top folders files)
    (hlead : folders lead) (hname : Path.isName name = true)
    (hfree : ∀ f ∈ files, ¬ parts f.name <+: lead ++ [name]) (names : List String) :
    ∃ i', outcome (Import.descend (some folderType) (below top lead) (name :: names)) i =
        outcome (Import.descend (some folderType) (below top (lead ++ [name])) names) i' ∧
      IsReady i' opened ∧ IsNamed (fun l => folders l ∨ l = lead ++ [name]) files ∧
      Mirrors i'.repository top (fun l => folders l ∨ l = lead ++ [name]) files := by
  have hleadNamed : ∀ n ∈ lead ++ [name], Path.isName n = true := by
    intro n hn
    rcases List.mem_append.1 hn with hn | hn
    · exact hnamed.folder lead hlead n hn
    · exact List.mem_singleton.1 hn ▸ hname
  have hnamed' : IsNamed (fun l => folders l ∨ l = lead ++ [name]) files := by
    refine ⟨?_, hnamed.file⟩
    rintro l (hl | rfl)
    · exact hnamed.folder l hl
    · exact hleadNamed
  have hnext : Path.join (below top lead) name = below top (lead ++ [name]) :=
    (Path.below_concat top lead name).symm
  cases hnode : i.repository.hasNode (below top (lead ++ [name])) with
  | true =>
    have hfolder := h.folder_of_hasNode hnamed htop hleadNamed hfree hnode
    refine ⟨i, ?_, hready, hnamed', h.congr fun l => ⟨.inl, ?_⟩⟩
    · rw [Import.descend, hnext]
      simp [hnode]
    · rintro (hl | rfl)
      · exact hl
      · exact hfolder
  | false =>
    obtain ⟨n, hn, -⟩ := h.folder lead hlead
    obtain ⟨r', hadd, hr'⟩ :=
      Repository.exists_outcome_addNode hname hn (hnext ▸ hnode) folderType
    rw [hnext] at hadd hr'
    refine ⟨{ i with repository := r', created := i.created ++ [below top (lead ++ [name])] }, ?_,
      ⟨hready.opened, hready.options, hready.clock, hready.waiting⟩, hnamed',
      h.addFolder hlead hn rfl hnode hr'⟩
    rw [Import.descend, hnext]
    simp [hnode, Import.outcome_discard, hadd, Import.recordCreated]

/-- The folders on a way are opened, and those are added that are missing. -/
theorem exists_outcome_descend {folders : List String → Prop} {files : List UnpackedFile}
    {lead names : List String} (htop : top ≠ "") (hready : IsReady i opened)
    (hnamed : IsNamed folders files) (h : Mirrors i.repository top folders files)
    (hlead : folders lead) (hnames : ∀ n ∈ names, Path.isName n = true)
    (hfree : ∀ f ∈ files, ¬ parts f.name <+: lead ++ names) :
    ∃ i', outcome (Import.descend (some folderType) (below top lead) names) i =
        (.ok (some (below top (lead ++ names))), i') ∧ IsReady i' opened ∧
      Mirrors i'.repository top (fun l => folders l ∨ lead <+: l ∧ l <+: lead ++ names) files := by
  induction names generalizing i lead folders with
  | nil =>
    refine ⟨i, by rw [List.append_nil]; rfl, hready, h.congr fun l => ?_⟩
    rw [List.append_nil]
    refine ⟨.inl, ?_⟩
    rintro (hl | ⟨hlong, hshort⟩)
    · exact hl
    · exact hlong.eq_of_length_le hshort.length_le ▸ hlead
  | cons name names ih =>
    obtain ⟨hname, hnames⟩ := List.forall_mem_cons.1 hnames
    have hway : lead ++ name :: names = lead ++ [name] ++ names := List.append_cons ..
    rw [hway] at hfree ⊢
    obtain ⟨i₁, hstep, hready₁, hnamed₁, h₁⟩ := exists_descend_cons htop hready hnamed h hlead hname
      (fun f hf hle => hfree f hf (hle.trans (List.prefix_append ..))) names
    obtain ⟨i₂, hrest, hready₂, h₂⟩ := ih hready₁ hnamed₁ h₁ (.inr rfl) hnames hfree
    refine ⟨i₂, hstep.trans hrest, hready₂, h₂.congr fun l => ?_⟩
    rw [between_iff]
    constructor
    · rintro ((hl | rfl) | hl)
      · exact .inl hl
      · exact .inr (.inr ⟨List.prefix_rfl, List.prefix_append ..⟩)
      · exact .inr (.inr hl)
    · rintro (hl | rfl | hl)
      · exact .inl (.inl hl)
      · exact .inl (.inl hlead)
      · exact .inr hl

/-! ## Files -/

theorem run_content (f : UnpackedFile) :
    Import.run (content f) = (do
      Import.openFile f.name (.ok f.data) none 0
      Import.closeNode
      Import.closeNode) := by
  change Import.run ((Script.call _).bind fun _ => (Script.call _).bind fun _ => Script.call _) = _
  simp only [Import.run_bind, Import.run_call]
  rfl

theorem run_file (f : UnpackedFile) :
    Import.run (file f) =
      match folder? f.name with
      | none => Import.run (content f)
      | some folder => (do
        discard <| Import.openPath folder (some folderType)
        Import.run (content f)
        Import.closeNode) := by
  rw [file]
  cases folder? f.name with
  | none => rfl
  | some folder =>
    change Import.run ((Script.call _).bind fun _ => (content f).bind fun _ => Script.call _) = _
    simp only [Import.run_bind, Import.run_call]
    rfl

section File

variable {f : UnpackedFile} {files : List UnpackedFile} {lead : List String}

/-- A file that is not there is opened as a new node with a new content node. -/
theorem exists_outcome_openFile {n : Node} (hready : IsReady i (parent :: rest))
    (hname : Path.isName (Text.afterLast '/' name) = true)
    (hn : i.repository.node? parent = some n) {file content : String}
    (hfile : Path.join parent (Text.afterLast '/' name) = file)
    (hcontent : Path.join file Import.contentName = content)
    (hnew : i.repository.hasNode file = false) (hnewContent : i.repository.hasNode content = false)
    (data : Bytes) :
    ∃ i' m c, outcome (Import.openFile name (.ok data) none 0) i = (.ok (), i') ∧
      IsReady i' (content :: file :: parent :: rest) ∧
      (m.type = Import.fileType ∧ m.children = [Import.contentName]) ∧
      (c.type = Import.resourceType ∧ c.children = [] ∧
        c.properties.get? Import.dataName = some (.single (.binary data))) ∧
      ∀ q, i'.repository.node? q =
        if content = q then some c
        else if file = q then some m
        else if parent = q then
          some { n with children := n.children ++ [Text.afterLast '/' name] }
        else i.repository.node? q := by
  subst hfile hcontent
  have hcontentName : Path.isName Import.contentName = true := by decide
  obtain ⟨i₁, m₁, h₁, hready₁, htype₁, hchildren₁, hr₁⟩ :=
    exists_outcome_openChild hready hname hn hnew Import.fileType
  have hn₁ : i₁.repository.node? (Path.join parent (Text.afterLast '/' name)) = some m₁ :=
    (hr₁ _).trans (if_pos rfl)
  have hnew₁ : i₁.repository.hasNode
      (Path.join (Path.join parent (Text.afterLast '/' name)) Import.contentName) = false := by
    rw [Bool.eq_false_iff] at hnewContent ⊢
    intro hnode
    obtain ⟨k, hk⟩ := Repository.exists_node?_of_hasNode hnode
    rw [hr₁, if_neg (Path.join_ne_self (by decide) _).symm] at hk
    split at hk
    · next heq => exact hnewContent (heq ▸ Repository.hasNode_of_node? hn)
    · exact hnewContent (Repository.hasNode_of_node? hk)
  obtain ⟨i₂, m₂, h₂, hready₂, htype₂, hchildren₂, hr₂⟩ :=
    exists_outcome_openChild hready₁ hcontentName hn₁ hnew₁ Import.resourceType
  obtain ⟨i₃, c, h₃, hready₃, htype, hchildren, hdata, hr₃⟩ :=
    exists_outcome_writeContent hready₂ ((hr₂ _).trans (if_pos rfl))
      (Path.join parent (Text.afterLast '/' name)) (Text.afterLast '/' name) data
  refine ⟨i₃, { m₁ with children := m₁.children ++ [Import.contentName] }, c, ?_, hready₃,
    ⟨htype₁, ?_⟩, ⟨htype.trans htype₂, hchildren.trans hchildren₂, hdata⟩, ?_⟩
  · rw [Import.openFile]
    simp [Import.outcome_current hready.opened, Import.openNode, hnew, h₁,
      Import.outcome_current hready₁.opened, h₂, h₃]
  · rw [hchildren₁, List.nil_append]
  · intro q
    rw [hr₃]
    split
    · rfl
    · next hq =>
      rw [hr₂, if_neg hq]
      split
      · rfl
      · next hq => rw [hr₁, if_neg hq]

/-- The file and its content are added inside of the folder that is open. -/
theorem exists_outcome_content {folders : List String → Prop}
    (hready : IsReady i (below top lead :: rest)) (h : Mirrors i.repository top folders files)
    (hlead : folders lead) (hparts : parts f.name = lead ++ [Text.afterLast '/' f.name])
    (hname : Path.isName (Text.afterLast '/' f.name) = true)
    (hnew : i.repository.hasNode (below top (parts f.name)) = false)
    (hnewContent : i.repository.hasNode
      (below top (parts f.name ++ [Import.contentName])) = false) :
    ∃ i', outcome (Import.run (content f)) i = (.ok (), i') ∧
      IsReady i' (below top lead :: rest) ∧ Mirrors i'.repository top folders (files ++ [f]) := by
  obtain ⟨n, hn, -⟩ := h.folder lead hlead
  have hfile : Path.join (below top lead) (Text.afterLast '/' f.name) =
      below top (parts f.name) := by
    rw [hparts, Path.below_concat]
  rw [Path.below_concat] at hnewContent
  obtain ⟨i₁, m, c, h₁, hready₁, hm, hc, hr₁⟩ :=
    exists_outcome_openFile hready hname hn hfile rfl hnew hnewContent f.data
  obtain ⟨i₂, h₂, hready₂, hr₂⟩ := exists_outcome_closeNode hready₁
  obtain ⟨i₃, h₃, hready₃, hr₃⟩ := exists_outcome_closeNode hready₂
  refine ⟨i₃, ?_, hready₃, ?_⟩
  · rw [run_content]
    simp [h₁, h₂, h₃]
  · rw [hr₃, hr₂]
    exact h.addFile hlead hn hm hc hnew hnewContent hr₁

/-- The files do not lie at one path, nor one of them below the other. -/
def IsApart (f g : UnpackedFile) : Prop :=
  ¬ parts f.name <+: parts g.name ∧ ¬ parts g.name <+: parts f.name

instance (f g : UnpackedFile) : Decidable (IsApart f g) := inferInstanceAs (Decidable (_ ∧ _))

/-- Names lead to a folder if they are on the way to a file; the node itself is a folder, too. -/
def IsFolderOf (files : List UnpackedFile) (names : List String) : Prop :=
  names = [] ∨ ∃ f ∈ files, names <+: parts f.name ∧ names ≠ parts f.name

/-- A file can be imported: it has a name, and its parts are names of nodes. -/
def IsImportable (f : UnpackedFile) : Prop :=
  f.name ≠ "" ∧ EntryName.isFolder f.name = false ∧ ∀ n ∈ parts f.name, Path.isName n = true

/-- A file adds the folders on the way to its own folder. -/
theorem isFolderOf_concat {last : String} (hparts : parts f.name = lead ++ [last])
    (names : List String) :
    IsFolderOf (files ++ [f]) names ↔ IsFolderOf files names ∨ [] <+: names ∧ names <+: lead := by
  constructor
  · rintro (rfl | ⟨g, hg, hle, hne⟩)
    · exact .inl (.inl rfl)
    · rcases List.mem_append.1 hg with hg | hg
      · exact .inl (.inr ⟨g, hg, hle, hne⟩)
      · rw [List.mem_singleton.1 hg, hparts] at hle hne
        exact .inr ⟨List.nil_prefix, (List.prefix_concat_iff.1 hle).resolve_left hne⟩
  · rintro ((rfl | ⟨g, hg, hrest⟩) | ⟨-, hle⟩)
    · exact .inl rfl
    · exact .inr ⟨g, List.mem_append_left _ hg, hrest⟩
    · refine .inr ⟨f, by simp, ?_, ?_⟩
      · rw [hparts]
        exact hle.trans (List.prefix_append ..)
      · rintro rfl
        have hlength := hle.length_le
        rw [hparts, List.length_append, List.length_singleton] at hlength
        omega

theorem isNamed_isFolderOf (hfiles : ∀ g ∈ files, IsImportable g) :
    IsNamed (IsFolderOf files) files where
  folder := by
    rintro names (rfl | ⟨g, hg, hle, -⟩) n hn
    · cases hn
    · exact (hfiles g hg).2.2 n (hle.subset hn)
  file := fun g hg => (hfiles g hg).2.2

/-- A file is added with its content when its folder is open, as a file apart from the others. -/
theorem exists_outcome_content_of_isApart (htop : top ≠ "")
    (hready : IsReady i (below top lead :: rest))
    (h : Mirrors i.repository top (IsFolderOf (files ++ [f])) files)
    (hparts : parts f.name = lead ++ [Text.afterLast '/' f.name])
    (hfiles : ∀ g ∈ files ++ [f], IsImportable g) (hapart : ∀ g ∈ files, IsApart g f) :
    ∃ i', outcome (Import.run (content f)) i = (.ok (), i') ∧
      IsReady i' (below top lead :: rest) ∧
      Mirrors i'.repository top (IsFolderOf (files ++ [f])) (files ++ [f]) := by
  have hf := (hfiles f (by simp)).2.2
  have hnamed : IsNamed (IsFolderOf (files ++ [f])) files := by
    have hall := isNamed_isFolderOf hfiles
    exact ⟨hall.folder, fun g hg => hall.file g (List.mem_append_left _ hg)⟩
  have hlead : IsFolderOf (files ++ [f]) lead :=
    (isFolderOf_concat hparts lead).2 (.inr ⟨List.nil_prefix, List.prefix_rfl⟩)
  -- no folder is needed at the path of the file or below it
  have hfolder : ∀ names, parts f.name <+: names → ¬ IsFolderOf (files ++ [f]) names := by
    rintro names hlong (rfl | ⟨g, hg, hle, hne⟩)
    · rw [List.prefix_nil, hparts] at hlong
      exact List.append_ne_nil_of_right_ne_nil _ (List.cons_ne_nil _ _) hlong
    · rcases List.mem_append.1 hg with hg | hg
      · exact (hapart g hg).2 (hlong.trans hle)
      · rw [List.mem_singleton.1 hg] at hle hne
        exact hne (hle.eq_of_length_le hlong.length_le)
  have hcontent : Path.isName Import.contentName = true := by decide
  refine exists_outcome_content hready h hlead hparts (hf _ ?_) ?_ ?_
  · rw [hparts]
    exact List.mem_append_right _ List.mem_cons_self
  · rw [Bool.eq_false_iff]
    intro hnode
    exact hfolder _ List.prefix_rfl
      (h.folder_of_hasNode hnamed htop hf (fun g hg => (hapart g hg).1) hnode)
  · rw [Bool.eq_false_iff]
    intro hnode
    refine hfolder _ (List.prefix_append ..) (h.folder_of_hasNode hnamed htop ?_ ?_ hnode)
    · intro n hn
      rcases List.mem_append.1 hn with hn | hn
      · exact hf n hn
      · exact List.mem_singleton.1 hn ▸ hcontent
    · intro g hg hle
      rcases List.prefix_concat_iff.1 hle with heq | hle
      · exact (hapart g hg).2 (heq ▸ List.prefix_append ..)
      · exact (hapart g hg).1 hle

/-- The folder of a file is opened, with all folders on the way. -/
theorem exists_outcome_openPath {folder last : String} (htop : top ≠ "")
    (hready : IsReady i (top :: rest)) (h : Mirrors i.repository top (IsFolderOf files) files)
    (hparts : parts f.name = parts folder ++ [last])
    (hfiles : ∀ g ∈ files ++ [f], IsImportable g) (hapart : ∀ g ∈ files, IsApart g f) :
    ∃ i', outcome (Import.openPath folder (some folderType)) i = (.ok true, i') ∧
      IsReady i' (below top (parts folder) :: top :: rest) ∧
      Mirrors i'.repository top (IsFolderOf (files ++ [f])) files := by
  have hleading : parts folder <+: parts f.name := hparts ▸ List.prefix_append ..
  have hnames : ∀ n ∈ parts folder, Path.isName n = true := fun n hn =>
    (hfiles f (by simp)).2.2 n (hleading.subset hn)
  have hfree : ∀ g ∈ files, ¬ parts g.name <+: [] ++ parts folder := fun g hg hle =>
    (hapart g hg).1 (hle.trans hleading)
  obtain ⟨i₁, hdescend, hready₁, h₁⟩ := exists_outcome_descend htop hready
    (isNamed_isFolderOf fun g hg => hfiles g (List.mem_append_left _ hg)) h (.inl rfl) hnames hfree
  refine ⟨{ i₁ with opened := below top (parts folder) :: i₁.opened }, ?_, ?_, ?_⟩
  · have hdescend : outcome (Import.descend (some folderType) top (parts folder)) i =
        (.ok (some (below top (parts folder))), i₁) := hdescend
    rw [parts] at hdescend ⊢
    simp [Import.openPath, Import.outcome_current hready.opened, hdescend, Import.push]
  · exact ⟨congrArg _ hready₁.opened, hready₁.options, hready₁.clock, hready₁.waiting⟩
  · exact h₁.congr fun names => (isFolderOf_concat hparts names).symm

/-- **A file that lies apart from the others is added to them.** -/
theorem exists_outcome_file (htop : top ≠ "") (hready : IsReady i (top :: rest))
    (h : Mirrors i.repository top (IsFolderOf files) files)
    (hfiles : ∀ g ∈ files ++ [f], IsImportable g) (hapart : ∀ g ∈ files, IsApart g f) :
    ∃ i', outcome (Import.run (file f)) i = (.ok (), i') ∧ IsReady i' (top :: rest) ∧
      Mirrors i'.repository top (IsFolderOf (files ++ [f])) (files ++ [f]) := by
  have hf := hfiles f (by simp)
  have hparts := parts_eq hf.1 hf.2.1
  rw [run_file]
  cases hfolder : folder? f.name with
  | none =>
    rw [hfolder] at hparts
    refine exists_outcome_content_of_isApart  htop hready (h.congr fun names => ?_)
      hparts hfiles hapart
    rw [isFolderOf_concat hparts]
    refine ⟨.inl, ?_⟩
    rintro (hnames | ⟨-, hnil⟩)
    · exact hnames
    · exact .inl (List.prefix_nil.1 hnil)
  | some folder =>
    rw [hfolder] at hparts
    obtain ⟨i₁, h₁, hready₁, hmirrors₁⟩ :=
      exists_outcome_openPath htop hready h hparts hfiles hapart
    obtain ⟨i₂, h₂, hready₂, hmirrors₂⟩ :=
      exists_outcome_content_of_isApart htop hready₁ hmirrors₁ hparts hfiles hapart
    obtain ⟨i₃, h₃, hready₃, hr₃⟩ := exists_outcome_closeNode hready₂
    refine ⟨i₃, ?_, hready₃, hr₃ ▸ hmirrors₂⟩
    have hdiscard : discard (Import.openPath folder (some folderType)) =
        Import.openPath folder (some folderType) >>= fun _ => pure () := rfl
    simp [hdiscard, h₁, h₂, h₃]

/-- **Files that lie apart from each other are mirrored** when they are read one after the other. -/
theorem exists_outcome_files (htop : top ≠ "") (hready : IsReady i (top :: rest))
    {more : List UnpackedFile}
    (h : Mirrors i.repository top (IsFolderOf files) files)
    (hfiles : ∀ g ∈ files ++ more, IsImportable g) (hapart : (files ++ more).Pairwise IsApart) :
    ∃ i', outcome (more.forM fun f => Import.run (file f)) i = (.ok (), i') ∧
      IsReady i' (top :: rest) ∧
      Mirrors i'.repository top (IsFolderOf (files ++ more)) (files ++ more) := by
  induction more generalizing i files with
  | nil =>
    rw [List.append_nil]
    exact ⟨i, rfl, hready, h⟩
  | cons f more ih =>
    have hone : ∀ g ∈ files, IsApart g f := fun g hg =>
      (List.pairwise_append.1 hapart).2.2 g hg f List.mem_cons_self
    rw [List.append_cons] at hfiles hapart ⊢
    obtain ⟨i₁, hfile, hready₁, h₁⟩ := exists_outcome_file htop hready h
      (fun g hg => hfiles g (List.mem_append_left _ hg)) hone
    obtain ⟨i', hmore, hready', h'⟩ := ih hready₁ h₁ hfiles hapart
    refine ⟨i', ?_, hready', h'⟩
    rw [List.forM, outcome_bind, hfile]
    exact hmore

end File

/-! ## Documents -/

/-- Bytes hold an archive within thresholds that can be read, and whose files lie apart from each
other. -/
structure IsPlain (t : Thresholds) (bytes : Bytes) (a : Archive) : Prop where
  archive : Archive.ofBytes? bytes = some a
  size : bytes.length ≤ t.maxArchiveSize
  allows : t.Allows a
  readable : ∀ e ∈ a, e.IsReadable
  parts : ∀ f ∈ a.files, ∀ n ∈ parts f.name, n ≠ "." ∧ n ≠ ".."
  apart : a.files.Pairwise IsApart

section Document

variable {t : Thresholds} {bytes : Bytes} {a : Archive}

theorem IsPlain.isImportable (h : IsPlain t bytes a) (hnamed : ∀ f ∈ a.files, f.name ≠ "") :
    ∀ f ∈ a.files, IsImportable f := by
  intro f hf
  obtain ⟨e, -, hfile⟩ := List.mem_filterMap.1 hf
  obtain ⟨hfolder, -, hname⟩ := Guard.content_of_file? hfile
  refine ⟨hnamed f hf, by rw [hname]; exact hfolder, fun n hn => Path.isName_iff.2 ?_⟩
  obtain ⟨hne, hslash⟩ := of_mem_parts hn
  obtain ⟨hdot, hdots⟩ := h.parts f hf n hn
  exact ⟨hne, hdot, hdots, hslash⟩

/-- All files are handed over, one after the other. -/
theorem IsPlain.forEach_eq (h : IsPlain t bytes a) (fail : ArchiveError → Script Nat)
    (f : UnpackedFile → Script Unit) :
    Guard.forEach fail f { thresholds := t, pending := a } =
      (do (Archive.files a).forM f; pure a.files.length) := by
  have hstart : Guard.HasVisited { thresholds := t, pending := a } [] := ⟨rfl, rfl⟩
  have hempty : t.Allows [] := ⟨Nat.zero_le _, Nat.zero_le _, nofun⟩
  obtain ⟨part, rest, result, hsplit, -, hends, heq⟩ :=
    Guard.forEachOf_eq fail f hstart hempty h.readable
  obtain rfl : rest = [] := hends.eq_nil (hsplit ▸ h.allows)
  obtain rfl : a = part := hsplit.trans (List.append_nil part)
  cases hends with
  | finished => exact heq

theorem run_script (h : IsPlain t bytes a) {files : Files} {scratch : Option String}
    (hscratch : Guard.scratchFolder files scratch = .ok ()) :
    Import.run (script t files scratch (.ok bytes)) = (do
      Import.openNode none (some folderType) []
      a.files.forM fun f => Import.run (file f)
      Import.closeNode) := by
  have hguard : Guard.ofBytes t bytes = .ok { thresholds := t, pending := a } := by
    rw [Guard.ofBytes, if_neg (Nat.not_lt.2 h.size), h.archive]
  have hscript : script t files scratch (.ok bytes) =
      (Script.call (.openNode none (some folderType) [])).bind fun _ =>
        (a.files.forM file).bind fun _ => Script.call .closeNode := by
    have hforEach := h.forEach_eq (fun e => .fail (.archive e)) file
    change (Script.call _).bind (fun _ =>
      (ofArchive (Guard.scratchFolder files scratch)).bind fun _ =>
        (ofArchive (.ok bytes)).bind fun bytes =>
          (ofArchive (Guard.ofBytes t bytes)).bind fun guard =>
            (discard (guard.forEach (fun e => .fail (.archive e)) file)).bind fun _ =>
              Script.call .closeNode) = _
    have hok : ∀ {α β : Type} (a : α) (f : α → Script β),
        ofArchive (.ok a) >>= f = f a := fun _ _ => rfl
    have hdiscard : ∀ s : Script Nat, discard s = s >>= fun _ => pure () := fun _ => rfl
    have hbind : ∀ {α β : Type} (s : Script α) (f : α → Script β), s.bind f = s >>= f :=
      fun _ _ => rfl
    simp only [hscratch, hok, hguard, hforEach, hdiscard, hbind, bind_assoc, pure_bind]
  rw [hscript, Import.run_bind, Import.run_call]
  simp only [Import.run_bind, Import.run_call, Import.run_forM]
  rfl

/-- The folder of an archive is a new child of the node that is open. -/
theorem exists_outcome_openTop {target : String} (htree : i.repository.IsTree)
    (hready : IsReady i [target]) (htarget : i.repository.hasNode target = true)
    (hname : Path.isName name = true)
    (hnew : i.repository.hasNode (Path.join target name) = false)
    (hdefault : i.defaultName = some name) :
    ∃ i', outcome (Import.openNode none (some folderType) []) i = (.ok (), i') ∧
      IsReady i' [Path.join target name, target] ∧
      Mirrors i'.repository (Path.join target name) (IsFolderOf []) [] := by
  obtain ⟨n, hn⟩ := Repository.exists_node?_of_hasNode htarget
  obtain ⟨i', m, hopen, hready', htype, -, hr'⟩ :=
    exists_outcome_openChild hready hname hn hnew folderType
  refine ⟨i', ?_, hready', ⟨?_, nofun, nofun⟩, ?_⟩
  · rw [Import.openNode]
    simp [Import.outcome_current hready.opened, hready.opened, hdefault, hopen]
  · rintro names (rfl | ⟨f, hf, -⟩)
    · exact ⟨m, (hr' _).trans (if_pos rfl), htype⟩
    · cases hf
  · intro q hwithin hq
    by_cases heq : Path.join target name = q
    · exact .inl ⟨[], .inl rfl, heq.symm⟩
    · exfalso
      -- what was there below the new node would have needed it as a node
      have hold : i.repository.hasNode q = true := by
        obtain ⟨k, hk⟩ := Repository.exists_node?_of_hasNode hq
        rw [hr', if_neg heq] at hk
        split at hk
        · next hparent => exact hparent ▸ htarget
        · exact Repository.hasNode_of_node? hk
      have htop := htree.hasNode_of_isWithin (Path.join_ne_empty _ _) hold hwithin
      rw [hnew] at htop
      cases htop

/-- **The script of an archive mirrors its files.** -/
theorem exists_outcome_script {target : String} {files : Files} {scratch : Option String}
    (h : IsPlain t bytes a) (hnamed : ∀ f ∈ a.files, f.name ≠ "")
    (hscratch : Guard.scratchFolder files scratch = .ok ()) (htree : i.repository.IsTree)
    (hready : IsReady i [target]) (htarget : i.repository.hasNode target = true)
    (hname : Path.isName name = true)
    (hnew : i.repository.hasNode (Path.join target name) = false)
    (hdefault : i.defaultName = some name) :
    ∃ i', outcome (Import.run (script t files scratch (.ok bytes))) i = (.ok (), i') ∧
      IsReady i' [target] ∧
      Mirrors i'.repository (Path.join target name) (IsFolderOf a.files) a.files := by
  obtain ⟨i₁, h₁, hready₁, hmirrors₁⟩ :=
    exists_outcome_openTop htree hready htarget hname hnew hdefault
  obtain ⟨i₂, h₂, hready₂, hmirrors₂⟩ : ∃ i₂,
      outcome (a.files.forM fun f => Import.run (file f)) i₁ = (.ok (), i₂) ∧
      IsReady i₂ [Path.join target name, target] ∧
      Mirrors i₂.repository (Path.join target name) (IsFolderOf a.files) a.files :=
    exists_outcome_files (Path.join_ne_empty target name) hready₁ hmirrors₁
      (h.isImportable hnamed) h.apart
  obtain ⟨i₃, h₃, hready₃, hr₃⟩ := exists_outcome_closeNode hready₂
  refine ⟨i₃, ?_, hready₃, hr₃ ▸ hmirrors₂⟩
  rw [run_script h hscratch]
  exact (outcome_bind_of_ok h₁).trans ((outcome_bind_of_ok h₂).trans h₃)

end Document

end ArchiveReader

namespace Loader

open ArchiveReader (IsPlain IsReady Mirrors IsFolderOf)

variable {l : Loader} {clock : Int} {reader : DocumentReader} {s : Source} {target name : String}
  {r : Repository} {t : Thresholds} {bytes : Bytes} {a : Archive}

/-- **An archive is imported as a mirror of its files,** with the options of the default and under a
name that is not in use, if each of its files has a name. -/
theorem mirrors_load (hr : r.Reachable) (hoptions : l.options = {})
    (hreader : reader.format = .ok (.archive t)) (hbytes : s.bytes = .ok bytes)
    (hscratch : Guard.scratchFolder s.origin.files s.scratch = .ok ()) (ha : IsPlain t bytes a)
    (hnamed : ∀ f ∈ a.files, f.name ≠ "") (htarget : r.hasNode target = true)
    (hname : Path.isName name = true) (hnew : r.hasNode (Path.join target name) = false)
    (hclock : (Timestamp.render? clock).isSome = true) :
    (∃ created, (outcome (l.load clock reader s target (some name)) r).1 = .ok created) ∧
      Mirrors (outcome (l.load clock reader s target (some name)) r).2 (Path.join target name)
        (IsFolderOf a.files) a.files := by
  have hseen : (reader.seen s).bytes = s.bytes ∧ (reader.seen s).scratch = s.scratch ∧
      (reader.seen s).origin.files = s.origin.files := by
    rw [DocumentReader.seen]
    split <;> exact ⟨rfl, rfl, rfl⟩
  have hscript : reader.script r.restrictions s =
      ArchiveReader.script t s.origin.files s.scratch (.ok bytes) := by
    rw [← hbytes, ← hseen.1, ← hseen.2.1, ← hseen.2.2, DocumentReader.script, hreader]
    rfl
  obtain ⟨i, hrun, hready, hmirrors⟩ := ArchiveReader.exists_outcome_script ha hnamed hscratch
    (i := { Import.new l.options clock r with opened := [target], defaultName := some name })
    hr.isTree ⟨rfl, hoptions, hclock, fun _ => rfl⟩ htarget hname hnew rfl
  rw [← hscript] at hrun
  rw [outcome_load_of_run htarget hrun (by rw [hready.options])]
  exact ⟨⟨_, rfl⟩, hmirrors⟩

/-- An archive with a file `f/a` that holds `x`, and a file `f/g/b` that holds `yz`. -/
def twoFiles : Bytes :=
  [ 80, 75, 3, 4, 20, 0, 0, 0, 0, 0, 0, 0, 33, 0, 131, 22, 220, 140, 1, 0, 0, 0, 1, 0, 0, 0, 3, 0,
    0, 0, 102, 47, 97, 120,
    80, 75, 3, 4, 20, 0, 0, 0, 0, 0, 0, 0, 33, 0, 98, 72, 244, 15, 2, 0, 0, 0, 2, 0, 0, 0, 5, 0,
    0, 0, 102, 47, 103, 47, 98, 121, 122,
    80, 75, 1, 2, 20, 3, 20, 0, 0, 0, 0, 0, 0, 0, 33, 0, 131, 22, 220, 140, 1, 0, 0, 0, 1, 0, 0, 0,
    3, 0, 0, 0, 0, 0, 0, 0, 0, 0, 0, 0, 128, 1, 0, 0, 0, 0, 102, 47, 97,
    80, 75, 1, 2, 20, 3, 20, 0, 0, 0, 0, 0, 0, 0, 33, 0, 98, 72, 244, 15, 2, 0, 0, 0, 2, 0, 0, 0,
    5, 0, 0, 0, 0, 0, 0, 0, 0, 0, 0, 0, 128, 1, 34, 0, 0, 0, 102, 47, 103, 47, 98,
    80, 75, 5, 6, 0, 0, 0, 0, 2, 0, 2, 0, 100, 0, 0, 0, 71, 0, 0, 0, 0, 0 ]

/-- The entries of the archive. -/
def twoEntries : Archive := [⟨"f/a", 1, .whole [120]⟩, ⟨"f/g/b", 2, .whole [121, 122]⟩]

theorem isPlain_twoFiles : IsPlain {} twoFiles twoEntries where
  archive := by decide +kernel
  size := by decide +kernel
  allows := by
    refine ⟨by decide +kernel, by decide +kernel, ?_⟩
    intro e he f hf
    simp only [twoEntries, List.mem_cons, List.not_mem_nil, or_false] at he
    rcases he with rfl | rfl <;> obtain rfl := Option.some.inj hf <;> decide +kernel
  readable := by
    intro e he
    simp only [twoEntries, List.mem_cons, List.not_mem_nil, or_false] at he
    rcases he with rfl | rfl <;> exact ⟨nofun, fun _ _ => nofun⟩
  parts := by decide +kernel
  apart := by decide +kernel

/-- The source of an archive. -/
def archiveSource (bytes : Bytes) : Source :=
  { bytes := .ok bytes, origin := ⟨Table.empty, none, 0⟩ }

theorem mirrors_load_twoFiles :
    let l : Loader := .ofConfig {}
    let r : Repository := .new .standard
    let run :=
      outcome (l.load 0 (.ofFormat (.archive {})) (archiveSource twoFiles) "/" (some "x")) r
    IsPlain {} twoFiles twoEntries ∧ (∀ f ∈ twoEntries.files, f.name ≠ "") ∧
      r.hasNode "/" = true ∧ Path.isName "x" = true ∧ r.hasNode "/x" = false ∧
      (∃ created, run.1 = .ok created) ∧
      Mirrors run.2 "/x" (IsFolderOf twoEntries.files) twoEntries.files := by
  intro l r run
  have hnamed : ∀ f ∈ twoEntries.files, f.name ≠ "" := by decide +kernel
  have htarget : r.hasNode "/" = true := by decide +kernel
  have hname : Path.isName "x" = true := by decide +kernel
  have hnew : r.hasNode "/x" = false := by decide +kernel
  refine ⟨isPlain_twoFiles, hnamed, htarget, hname, hnew, ?_⟩
  exact mirrors_load (.new .standard) rfl rfl rfl rfl isPlain_twoFiles hnamed htarget hname hnew
    (by decide +kernel)

/-- An archive whose only file is empty and has no name. -/
def unnamedFile : Bytes :=
  [ 80, 75, 3, 4, 20, 0, 0, 0, 0, 0, 0, 0, 33, 0, 0, 0, 0, 0, 0, 0, 0, 0, 0, 0, 0, 0, 0, 0, 0, 0,
    80, 75, 1, 2, 20, 0, 20, 0, 0, 0, 0, 0, 0, 0, 33, 0, 0, 0, 0, 0, 0, 0, 0, 0, 0, 0, 0, 0, 0, 0,
    0, 0, 0, 0, 0, 0, 0, 0, 0, 0, 128, 1, 0, 0, 0, 0,
    80, 75, 5, 6, 0, 0, 0, 0, 1, 0, 1, 0, 46, 0, 0, 0, 30, 0, 0, 0, 0, 0 ]

/-- **A file without a name cannot be imported:** no node can have its name. -/
theorem unnamed_not_loaded :
    ¬ ∀ (l : Loader) (clock : Int) (reader : DocumentReader) (s : Source) (target name : String)
      (r : Repository) (t : Thresholds) (bytes : Bytes) (a : Archive),
      r.Reachable → l.options = {} → reader.format = .ok (.archive t) → s.bytes = .ok bytes →
      Guard.scratchFolder s.origin.files s.scratch = .ok () → IsPlain t bytes a →
      r.hasNode target = true → Path.isName name = true →
      r.hasNode (Path.join target name) = false → (Timestamp.render? clock).isSome = true →
      ∃ created, (outcome (l.load clock reader s target (some name)) r).1 = .ok created := by
  intro hloads
  have hplain : IsPlain {} unnamedFile [⟨"", 0, .whole []⟩] := by
    refine ⟨by decide +kernel, by decide +kernel, ⟨by decide, by decide, ?_⟩, ?_, by decide +kernel,
      by decide +kernel⟩
    · intro e he f hf
      obtain rfl := List.mem_singleton.1 he
      obtain rfl := Option.some.inj hf
      exact fun hdense => hdense.1 rfl
    · intro e he
      obtain rfl := List.mem_singleton.1 he
      exact ⟨nofun, fun _ _ => nofun⟩
  obtain ⟨created, hload⟩ := hloads (.ofConfig {}) 0 (.ofFormat (.archive {}))
    (archiveSource unnamedFile) "/" "x" (.new .standard) {} unnamedFile _ (.new .standard) rfl rfl
    rfl rfl hplain (by decide +kernel) (by decide +kernel) (by decide +kernel) (by decide +kernel)
  have hfails : (outcome ((Loader.ofConfig {}).load 0 (.ofFormat (.archive {}))
      (archiveSource unnamedFile) "/" (some "x")) (.new .standard)).1 =
      .error (.repository (.invalidName "")) := by
    decide +kernel
  rw [hfails] at hload
  cases hload

end Loader

end ContentImport
