import ContentImport.Proofs.Archive.Guard
import ContentImport.Proofs.Import.Step
import ContentImport.Proofs.Text.Basic
import ContentImport.Reader.Archive
import Mathlib.Data.List.Induction

/-!
# Nodes that mirror files

The names of files tell folders and, inside of them, files. A repository mirrors files below a node
if it has a folder node for each folder, a file node with one content node for each file, and
nothing else there (`Mirrors`).

* A folder that is missing can be added to a folder (`Mirrors.addFolder`).
* So can a file, if no file lies at its path, above or below (`Mirrors.addFile`).

Why what is there stays as it is: only the folder that gets the new node changes, and it gets no
more than a child.
-/

namespace ContentImport

/-! ## Names of files -/

namespace Text

theorem notMem_of_cutLast {sep : Char} {cs a b : List Char} (h : cutLast sep cs = some (a, b)) :
    sep ∉ b := by
  have hcs := append_of_cutLast h
  rw [hcs, cutLast_append] at h
  rw [← cutLast_eq_none_iff]
  rcases hb : cutLast sep b with _ | ⟨c, d⟩
  · rfl
  · rw [hb] at h
    have hd := append_of_cutLast hb
    have heq : d = b := congrArg (fun p => (Option.getD p ([], [])).2) h
    have hlength := congrArg List.length (heq ▸ hd)
    rw [List.length_append, List.length_cons] at hlength
    omega

end Text

namespace ArchiveReader

/-- The names on the way to a file. -/
def parts (name : String) : List String := (Text.split '/' name).filter (· != "")

variable {name : String}

theorem of_mem_parts {n : String} (h : n ∈ parts name) : n ≠ "" ∧ '/' ∉ n.toList := by
  obtain ⟨hsplit, hne⟩ := List.mem_filter.1 h
  exact ⟨by simpa using hne, Text.notMem_of_mem_split hsplit⟩

/-- A file lies in its folder under the last part of its name. -/
theorem parts_eq (hname : name ≠ "") (hfile : EntryName.isFolder name = false) :
    parts name = (folder? name).elim [] parts ++ [Text.afterLast '/' name] := by
  rw [folder?, Text.afterLast]
  cases hcut : Text.cutLast '/' name.toList with
  | none =>
    have hpieces := Text.pieces_of_notMem (Text.cutLast_eq_none_iff.1 hcut)
    rw [parts, Text.split, hpieces]
    simpa using hname
  | some p =>
    obtain ⟨a, b⟩ := p
    have htoList := Text.append_of_cutLast hcut
    have hb : b ≠ [] := by
      rintro rfl
      rw [EntryName.isFolder, htoList] at hfile
      simp at hfile
    have hpieces : Text.split '/' name = Text.split '/' (String.ofList a) ++ [String.ofList b] := by
      rw [Text.split, Text.split, String.toList_ofList, htoList, Text.pieces_append,
        Text.pieces_of_notMem (Text.notMem_of_cutLast hcut), List.map_append, List.map_singleton]
    have hkept : (String.ofList b != "") = true := by simpa using hb
    rw [parts, hpieces, List.filter_append, List.filter_singleton, hkept]
    rfl

end ArchiveReader

/-! ## Paths below a node -/

namespace Path

variable {top name : String} {names names' : List String}

/-- The path to which names lead from a node. -/
def below (top : String) (names : List String) : String := names.foldl join top

theorem below_concat (top : String) (names : List String) (name : String) :
    below top (names ++ [name]) = join (below top names) name :=
  List.foldl_concat ..

theorem isWithin_below (top : String) (names : List String) :
    isWithin (below top names) top = true := by
  induction names using List.reverseRecOn with
  | nil => exact isWithin_refl top
  | append_singleton names name ih =>
    rw [below_concat]
    exact isWithin_join ih name

theorem below_ne_empty (htop : top ≠ "") (names : List String) : below top names ≠ "" := by
  induction names using List.reverseRecOn with
  | nil => exact htop
  | append_singleton names name ih =>
    rw [below_concat]
    exact join_ne_empty _ _

theorem join_ne_self (hname : name ≠ "") (path : String) : join path name ≠ path := by
  intro heq
  have hlt := length_lt_join (join_ne_root (p := path) hname)
  rw [heq] at hlt
  exact Nat.lt_irrefl _ hlt

theorem below_concat_ne (hname : isName name = true) : below top (names ++ [name]) ≠ top := by
  intro heq
  rw [below_concat] at heq
  have hroot : join (below top names) name ≠ root := join_ne_root (isName_iff.1 hname).1
  have hout := isWithin_join_eq_false (isWithin_below top names) hroot
  rw [heq, isWithin_refl] at hout
  cases hout

/-- Different names lead to different nodes. -/
theorem below_inj (htop : top ≠ "") (hnames : ∀ n ∈ names, isName n = true)
    (hnames' : ∀ n ∈ names', isName n = true) (h : below top names = below top names') :
    names = names' := by
  induction names using List.reverseRecOn generalizing names' with
  | nil =>
    rcases List.eq_nil_or_concat' names' with rfl | ⟨before, name, rfl⟩
    · rfl
    · exact absurd h.symm (below_concat_ne (hnames' name (by simp)))
  | append_singleton before name ih =>
    rcases List.eq_nil_or_concat' names' with rfl | ⟨before', name', rfl⟩
    · exact absurd h (below_concat_ne (hnames name (by simp)))
    · rw [below_concat, below_concat] at h
      obtain ⟨hbefore, rfl⟩ := join_inj (below_ne_empty htop _) (below_ne_empty htop _)
        (isName_iff.1 (hnames name (by simp))).2.2.2
        (isName_iff.1 (hnames' name' (by simp))).2.2.2 h
      rw [ih (fun n hn => hnames n (by simp [hn])) (fun n hn => hnames' n (by simp [hn])) hbefore]

end Path

/-! ## Mirrored files -/

namespace ArchiveReader

open ContentImport.Path (below)

/-- Files are mirrored below a node: `folders` says which names lead to a folder. -/
structure Holds (r : Repository) (top : String) (folders : List String → Prop)
    (files : List UnpackedFile) : Prop where
  folder : ∀ names, folders names → ∃ n, r.node? (below top names) = some n ∧ n.type = folderType
  file : ∀ f ∈ files, ∃ n, r.node? (below top (parts f.name)) = some n ∧
    n.type = Import.fileType ∧ n.children = [Import.contentName]
  content : ∀ f ∈ files, ∃ n,
    r.node? (Path.join (below top (parts f.name)) Import.contentName) = some n ∧
    n.type = Import.resourceType ∧ n.children = [] ∧
    n.properties.get? Import.dataName = some (.single (.binary f.data))

/-- Files are mirrored below a node, and nothing else is there. -/
structure Mirrors (r : Repository) (top : String) (folders : List String → Prop)
    (files : List UnpackedFile) : Prop extends Holds r top folders files where
  only : ∀ q, Path.isWithin q top = true → r.hasNode q = true →
    (∃ names, folders names ∧ q = below top names) ∨
      ∃ f ∈ files, q = below top (parts f.name) ∨
        q = Path.join (below top (parts f.name)) Import.contentName

/-- All folders and files have names that nodes can have. -/
structure IsNamed (folders : List String → Prop) (files : List UnpackedFile) : Prop where
  folder : ∀ names, folders names → ∀ n ∈ names, Path.isName n = true
  file : ∀ f ∈ files, ∀ n ∈ parts f.name, Path.isName n = true

variable {r r' : Repository} {top name : String} {names : List String}
  {folders folders' : List String → Prop} {files : List UnpackedFile}

/-- What is there below the node, but neither is a file nor lies below one, is a folder. -/
theorem Mirrors.folder_of_hasNode (h : Mirrors r top folders files) (hnamed : IsNamed folders files)
    (htop : top ≠ "") (hnames : ∀ n ∈ names, Path.isName n = true)
    (hfree : ∀ f ∈ files, ¬ parts f.name <+: names)
    (hnode : r.hasNode (below top names) = true) : folders names := by
  have hcontent : Path.isName Import.contentName = true := by decide
  rcases h.only _ (Path.isWithin_below top names) hnode with ⟨l, hl, heq⟩ | ⟨f, hf, heq | heq⟩
  · exact Path.below_inj htop hnames (hnamed.folder l hl) heq ▸ hl
  · have hname := Path.below_inj htop hnames (hnamed.file f hf) heq
    exact absurd (hname ▸ List.prefix_rfl) (hfree f hf)
  · have hname : names = parts f.name ++ [Import.contentName] := by
      rw [← Path.below_concat] at heq
      refine Path.below_inj htop hnames ?_ heq
      intro n hn
      rcases List.mem_append.1 hn with hn | hn
      · exact hnamed.file f hf n hn
      · exact List.mem_singleton.1 hn ▸ hcontent
    exact absurd (hname ▸ List.prefix_append ..) (hfree f hf)

/-- A folder that gets one more child leaves everything as it is held. -/
theorem Holds.of_added (h : Holds r top folders files) (hfolder : folders names) {n : Node}
    (hn : r.node? (below top names) = some n) (name : String)
    (hr' : ∀ q, r.hasNode q = true → r'.node? q =
      if below top names = q then some { n with children := n.children ++ [name] }
      else r.node? q) : Holds r' top folders files := by
  obtain ⟨n', hn', htype⟩ := h.folder names hfolder
  obtain rfl : n = n' := Option.some.inj (hn.symm.trans hn')
  -- nothing but a folder has the type of a folder
  have hkept : ∀ {q : String} {m : Node}, r.node? q = some m → m.type ≠ folderType →
      r'.node? q = some m := by
    intro q m hm hother
    rw [hr' q (Repository.hasNode_of_node? hm), if_neg, hm]
    rintro rfl
    rw [hn] at hm
    exact hother (Option.some.inj hm ▸ htype)
  have hfile : Import.fileType ≠ folderType := by decide
  have hresource : Import.resourceType ≠ folderType := by decide
  constructor
  · intro names' hnames'
    obtain ⟨m, hm, hmtype⟩ := h.folder names' hnames'
    rw [hr' _ (Repository.hasNode_of_node? hm)]
    split
    · exact ⟨_, rfl, htype⟩
    · exact ⟨m, hm, hmtype⟩
  · intro f hf
    obtain ⟨m, hm, hmtype, hchildren⟩ := h.file f hf
    exact ⟨m, hkept hm (hmtype ▸ hfile), hmtype, hchildren⟩
  · intro f hf
    obtain ⟨m, hm, hmtype, hrest⟩ := h.content f hf
    exact ⟨m, hkept hm (hmtype ▸ hresource), hmtype, hrest⟩

theorem Mirrors.congr (h : Mirrors r top folders files)
    (hfolders : ∀ names, folders names ↔ folders' names) : Mirrors r top folders' files :=
  (funext fun names => propext (hfolders names) : folders = folders') ▸ h

/-- A new folder inside of a folder. -/
theorem Mirrors.addFolder (h : Mirrors r top folders files) (hfolder : folders names) {n m : Node}
    (hn : r.node? (below top names) = some n) (hm : m.type = folderType)
    (hnew : r.hasNode (below top (names ++ [name])) = false)
    (hr' : ∀ q, r'.node? q =
      if below top (names ++ [name]) = q then some m
      else if below top names = q then some { n with children := n.children ++ [name] }
      else r.node? q) :
    Mirrors r' top (fun l => folders l ∨ l = names ++ [name]) files := by
  have hkept : Holds r' top folders files := by
    refine h.of_added hfolder hn name fun q hq => (hr' q).trans (if_neg ?_)
    rintro rfl
    rw [hnew] at hq
    cases hq
  refine ⟨⟨?_, hkept.file, hkept.content⟩, ?_⟩
  · rintro l (hl | rfl)
    · exact hkept.folder l hl
    · exact ⟨m, (hr' _).trans (if_pos rfl), hm⟩
  · intro q hwithin hq
    by_cases heq : below top (names ++ [name]) = q
    · exact .inl ⟨_, .inr rfl, heq.symm⟩
    · have hold : r.hasNode q = true := by
        obtain ⟨k, hk⟩ := Repository.exists_node?_of_hasNode hq
        rw [hr', if_neg heq] at hk
        split at hk
        · next hparent => exact hparent ▸ Repository.hasNode_of_node? hn
        · exact Repository.hasNode_of_node? hk
      rcases h.only q hwithin hold with ⟨l, hl, rfl⟩ | hfile
      · exact .inl ⟨l, .inl hl, rfl⟩
      · exact .inr hfile

/-- A new file inside of a folder. -/
theorem Mirrors.addFile (h : Mirrors r top folders files) (hfolder : folders names)
    {f : UnpackedFile} {n m c : Node}
    (hn : r.node? (below top names) = some n)
    (hm : m.type = Import.fileType ∧ m.children = [Import.contentName])
    (hc : c.type = Import.resourceType ∧ c.children = [] ∧
      c.properties.get? Import.dataName = some (.single (.binary f.data)))
    (hnew : r.hasNode (below top (parts f.name)) = false)
    (hnewContent : r.hasNode (Path.join (below top (parts f.name)) Import.contentName) = false)
    (hr' : ∀ q, r'.node? q =
      if Path.join (below top (parts f.name)) Import.contentName = q then some c
      else if below top (parts f.name) = q then some m
      else if below top names = q then some { n with children := n.children ++ [name] }
      else r.node? q) :
    Mirrors r' top folders (files ++ [f]) := by
  have hkept : Holds r' top folders files := by
    refine h.of_added hfolder hn name fun q hq => ?_
    rw [hr', if_neg, if_neg]
    · rintro rfl
      rw [hnew] at hq
      cases hq
    · rintro rfl
      rw [hnewContent] at hq
      cases hq
  have hfile : r'.node? (below top (parts f.name)) = some m := by
    have hne : Import.contentName ≠ "" := by decide
    rw [hr', if_neg (Path.join_ne_self hne _), if_pos rfl]
  refine ⟨⟨hkept.folder, ?_, ?_⟩, ?_⟩
  · intro g hg
    rcases List.mem_append.1 hg with hg | hg
    · exact hkept.file g hg
    · rw [List.mem_singleton.1 hg]
      exact ⟨m, hfile, hm⟩
  · intro g hg
    rcases List.mem_append.1 hg with hg | hg
    · exact hkept.content g hg
    · rw [List.mem_singleton.1 hg]
      exact ⟨c, (hr' _).trans (if_pos rfl), hc⟩
  · intro q hwithin hq
    have hlast : f ∈ files ++ [f] := by simp
    by_cases hcontent : Path.join (below top (parts f.name)) Import.contentName = q
    · exact .inr ⟨f, hlast, .inr hcontent.symm⟩
    by_cases hfile : below top (parts f.name) = q
    · exact .inr ⟨f, hlast, .inl hfile.symm⟩
    have hold : r.hasNode q = true := by
      obtain ⟨k, hk⟩ := Repository.exists_node?_of_hasNode hq
      rw [hr', if_neg hcontent, if_neg hfile] at hk
      split at hk
      · next hparent => exact hparent ▸ Repository.hasNode_of_node? hn
      · exact Repository.hasNode_of_node? hk
    rcases h.only q hwithin hold with hfolder | ⟨g, hg, hq⟩
    · exact .inl hfolder
    · exact .inr ⟨g, List.mem_append_left _ hg, hq⟩

end ArchiveReader

end ContentImport
