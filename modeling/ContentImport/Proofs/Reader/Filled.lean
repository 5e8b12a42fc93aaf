import ContentImport.Proofs.Reader.Content
import ContentImport.Proofs.Repository.Shown

/-!
# Nodes that are filled by reading members

While the members of an object are read, the node of the object is filled with what they describe.

* `IsFilled` says which members a node is shown with so far; it gains one with each property that is
  written (`IsFilled.write`) and with each child that is added (`IsFilled.add`).
* `IsRead` is what is to be shown of every object: read as a new child, it adds what it describes.
  If it holds of the objects among the members of an object, reading all of them fills the node with
  the arranged members (`fills_of_members`).

Why a child that was read stays as it is: what comes after it changes the node itself, or lies
within a sibling.
-/

namespace ContentImport.JsonReader

open Import (IsContained)

variable {r r' : Repository} {i i' : Import} {path parent name type : String} {mixins : List String}
  {rows members : Json.Members} {j : Json} {S : Supported}

/-! ## Nodes that are being filled -/

/-- A node has a type and mixin types, and is shown with rows of other members. -/
structure IsFilled (r : Repository) (path type : String) (mixins : List String)
    (rows : Json.Members) : Prop where
  node : ∃ n, r.node? path = some n ∧ n.type = type ∧ n.mixins = mixins ∧
    (n.properties.rows.map fun row => (row.1, row.2.toJson)) =
      rows.filter (fun m => !isObject m.2) ∧
    n.children = (rows.filter fun m => isObject m.2).map (·.1)
  shows : ∀ row ∈ rows, isObject row.2 = true → r.Shows (Path.join path row.1) row.2

namespace IsFilled

variable (h : IsFilled r path type mixins rows)

include h

theorem lists {row : String × Json} (hrow : row ∈ rows) (hobject : isObject row.2 = true) :
    r.Lists path row.1 := by
  obtain ⟨n, hn, -, -, -, hchildren⟩ := h.node
  refine ⟨n.children, by rw [Repository.childNames, hn]; rfl, ?_⟩
  rw [hchildren]
  exact List.mem_map_of_mem (List.mem_filter.2 ⟨hrow, hobject⟩)

/-- A node has no property under a name that no row has. -/
theorem notMem_keys (hnew : name ∉ rows.map (·.1)) {n : Node} (hn : r.node? path = some n) :
    name ∉ n.properties.keys := by
  obtain ⟨n', hn', -, -, hproperties, -⟩ := h.node
  obtain rfl : n = n' := Option.some.inj (hn.symm.trans hn')
  intro hmem
  have hmap : n.properties.keys = (rows.filter fun m => !isObject m.2).map (·.1) := by
    rw [← hproperties, List.map_map]
    rfl
  rw [hmap] at hmem
  exact hnew ((List.filter_sublist.map _).subset hmem)

/-- Nothing is at the path of a child that no row has. -/
theorem hasNode_eq_false (htree : r.IsTree) (hroot : path ≠ Path.root)
    (hnew : name ∉ rows.map (·.1)) (hslash : '/' ∉ name.toList) :
    r.hasNode (Path.join path name) = false := by
  obtain ⟨n, hn, -, -, -, hchildren⟩ := h.node
  have hpath : path ≠ "" :=
    htree.ne_empty (Repository.hasNode_iff.2 ⟨n.children, by rw [Repository.childNames, hn]; rfl⟩)
  rw [Bool.eq_false_iff]
  intro hnode
  obtain ⟨parent, m, hlist, heq⟩ :=
    htree.listed _ hnode (Path.join_ne_root_of_ne hpath hroot)
  obtain ⟨rfl, rfl⟩ := Path.join_inj hpath (htree.ne_empty hlist.hasNode) hslash
    (htree.noSlash hlist) heq
  obtain ⟨names, hnames, hmem⟩ := hlist
  obtain rfl : n.children = names := by
    rw [Repository.childNames, hn] at hnames
    exact Option.some.inj hnames
  rw [hchildren] at hmem
  exact hnew ((List.filter_sublist.map _).subset hmem)

/-- The children are shown as before if nothing below them has changed. -/
theorem shows_of_same (r' : Repository) (htree : r.IsTree)
    (hsame : ∀ row ∈ rows, isObject row.2 = true → ∀ q, q ≠ path →
      Path.isWithin q (Path.join path row.1) = true → r'.node? q = r.node? q) :
    ∀ row ∈ rows, isObject row.2 = true → r'.Shows (Path.join path row.1) row.2 := by
  intro row hrow hobject
  refine (h.shows row hrow hobject).congr fun q hq => hsame row hrow hobject q ?_ hq
  rintro rfl
  have hroot := htree.join_ne_root (h.lists hrow hobject)
  rw [Path.isWithin_join_eq_false (Path.isWithin_refl q) hroot] at hq
  cases hq

/-- A node with one more property. -/
theorem write (htree : r.IsTree) {p : Property} (hnew : name ∉ rows.map (·.1))
    (hp : isObject p.toJson = false) {n : Node} (hn : r.node? path = some n)
    (hr' : ∀ q, r'.node? q = if path = q then
      some { n with properties := n.properties.insert name p } else r.node? q) :
    IsFilled r' path type mixins (rows ++ [(name, p.toJson)]) := by
  obtain ⟨n', hn', htype, hmixins, hproperties, hchildren⟩ := h.node
  obtain rfl : n = n' := Option.some.inj (hn.symm.trans hn')
  constructor
  · refine ⟨_, (hr' path).trans (if_pos rfl), htype, hmixins, ?_, ?_⟩
    · have hinsert : (n.properties.insert name p).rows = n.properties.rows ++ [(name, p)] :=
        Table.put_of_notMem (h.notMem_keys hnew hn)
      change (n.properties.insert name p).rows.map _ = _
      rw [hinsert, List.map_append, hproperties, List.filter_append]
      simp [hp]
    · rw [hchildren, List.filter_append]
      simp [hp]
  · have hsame := h.shows_of_same r' htree fun row _ _ q hq _ =>
      (hr' q).trans (if_neg fun heq => hq heq.symm)
    intro row hrow hobject
    rcases List.mem_append.1 hrow with hrow | hrow
    · exact hsame row hrow hobject
    · rw [List.mem_singleton.1 hrow, hp] at hobject
      cases hobject

end IsFilled

/-- A node has become the last child of another one, where nothing was before, and is shown as a
value; nothing else has changed. -/
structure IsAdded (r r' : Repository) (parent name : String) (j : Json) : Prop where
  isName : Path.isName name = true
  listed : ∃ n, r.node? parent = some n ∧
    r'.node? parent = some { n with children := n.children ++ [name] }
  outside : ∀ q, q ≠ parent → Path.isWithin q (Path.join parent name) = false →
    r'.node? q = r.node? q
  shows : r'.Shows (Path.join parent name) j

/-- A node with one more child. -/
theorem IsFilled.add (h : IsFilled r path type mixins rows) (htree : r.IsTree)
    (hadded : IsAdded r r' path name j) (hnew : name ∉ rows.map (·.1))
    (hj : isObject j = true) : IsFilled r' path type mixins (rows ++ [(name, j)]) := by
  obtain ⟨n', hn', htype, hmixins, hproperties, hchildren⟩ := h.node
  obtain ⟨n, hn, hparent⟩ := hadded.listed
  obtain rfl : n = n' := Option.some.inj (hn.symm.trans hn')
  constructor
  · refine ⟨_, hparent, htype, hmixins, ?_, ?_⟩
    · rw [hproperties, List.filter_append]
      simp [hj]
    · rw [hchildren, List.filter_append]
      simp [hj]
  · have hsame := h.shows_of_same r' htree fun row hrow hobject q hq hwithin => by
      have hname := (htree.child path row.1 (h.lists hrow hobject)).1
      have hne : row.1 ≠ name := fun heq => hnew (heq ▸ List.mem_map_of_mem hrow)
      exact hadded.outside q hq (Path.isWithin_sibling_eq_false hname hadded.isName hne hwithin)
    intro row hrow hobject
    rcases List.mem_append.1 hrow with hrow | hrow
    · exact hsame row hrow hobject
    · rw [List.mem_singleton.1 hrow]
      exact hadded.shows

/-! ## Members -/

/-- An import of content in a reachable repository, without anything that waits for a node and
without options that change what is there. -/
structure IsPlainImport (i : Import) : Prop where
  contained : ∃ target start, start.repository.Reachable ∧ IsContained target start i
  overwrite : i.options.overwrite = false
  propertyMerge : i.options.propertyMerge = false
  waiting : ∀ node, i.waiting.get? node = none

/-- Two imports agree on what decides how plain content is read. -/
structure SameCourse (i i' : Import) : Prop where
  opened : i'.opened = i.opened
  options : i'.options = i.options
  waiting : i'.waiting = i.waiting

theorem SameCourse.trans {i'' : Import} (h : SameCourse i i') (h' : SameCourse i' i'') :
    SameCourse i i'' :=
  ⟨h'.opened.trans h.opened, h'.options.trans h.options, h'.waiting.trans h.waiting⟩

namespace IsPlainImport

variable (h : IsPlainImport i)

include h

theorem isTree : i.repository.IsTree := by
  obtain ⟨target, start, hstart, hcontained⟩ := h.contained
  exact (hcontained.repository.reachable hstart).isTree

theorem after {α : Type} {c : Import.Step α} {a : α}
    (hc : ∀ target start, Keeps (IsContained target start) c) (hrun : outcome c i = (.ok a, i'))
    (hoptions : i'.options = i.options) (hwaiting : i'.waiting = i.waiting) :
    IsPlainImport i' := by
  obtain ⟨target, start, hstart, hcontained⟩ := h.contained
  constructor
  · have hafter := (hc target start i hcontained).1
    rw [hrun] at hafter
    exact ⟨target, start, hstart, hafter⟩
  · rw [hoptions]
    exact h.overwrite
  · rw [hoptions]
    exact h.propertyMerge
  · rw [hwaiting]
    exact h.waiting

end IsPlainImport

/-- Whatever import reads an object as a new child of the current node, adds what the object
describes. -/
def IsRead (S : Supported) (members : Json.Members) : Prop :=
  ∀ {opening : Option String} {i i' : Import} {parent name : String} {rest : List String},
    IsPlainImport i → i.opened = parent :: rest →
    i.repository.hasNode (Path.join parent name) = false →
    (∀ type mixins, outcome (Import.openNode opening type mixins) i =
      outcome (Import.openChild parent name type mixins) i) →
    outcome (Import.run (node S opening members)) i = (.ok (), i') →
    SameCourse i i' ∧
      IsAdded i.repository i'.repository parent name (arranged (.object members))

theorem members_cons_of_ignored (h : name ∈ ignoredNames) :
    JsonReader.members S ((name, j) :: members) = JsonReader.members S members := by
  simp [JsonReader.members, h]

theorem members_cons (h : name ∉ ignoredNames) :
    JsonReader.members S ((name, j) :: members) =
      (member S name j).bind fun _ => JsonReader.members S members := by
  simp [JsonReader.members, h]
  rfl

theorem member_object (hprincipals : name ≠ principalsMember) (haccess : name ≠ accessMember) :
    member S name (.object members) = node S (some name) members := by
  rw [member, if_neg hprincipals, if_neg haccess]
  rfl

theorem member_of_isObject_eq_false (hname : IsPlainName name) (hj : isObject j = false) :
    member S name j = property name j := by
  cases j with
  | object => cases hj
  | _ => simp [member, hname.principals, hname.access]

/-- A document is read as the object that it describes. -/
theorem script_eq_node {bytes : Bytes} {text : String} (htext : decode bytes = .ok text)
    (hobject : document? text = .ok members) (definitions : List RestrictionDefinition) :
    script definitions bytes = node (supported definitions) none members := by
  have hparts : script definitions bytes = (Script.ofResult (decode bytes)).bind fun text =>
      (Script.ofResult (document? text)).bind fun object =>
        node (supported definitions) none object := rfl
  have hdone : ∀ {α β : Type} (a : α) (f : α → Script β),
      (Script.ofResult (.ok a)).bind f = f a := fun _ _ => rfl
  rw [hparts, htext, hdone, hobject, hdone]

/-- What reading something between opening and closing a node does to the node. -/
structure Fills (i i' : Import) (path type : String) (mixins : List String)
    (rows : Json.Members) : Prop where
  course : SameCourse i i'
  filled : IsFilled i'.repository path type mixins rows
  outside : ∀ q, Path.isWithin q path = false → i'.repository.node? q = i.repository.node? q

section Fills

variable {rest : List String} (hplain : IsPlainImport i) (hopened : i.opened = path :: rest)
  (hfilled : IsFilled i.repository path type mixins rows)

include hplain hopened hfilled

theorem fills_of_property (hname : IsPlainName name) (hnew : name ∉ rows.map (·.1))
    (hj : isObject j = false) (hvalue : IsPropertyValue j)
    (hrun : outcome (Import.run (property name j)) i = (.ok (), i')) :
    Fills i i' path type mixins (rows ++ [(name, j)]) := by
  obtain ⟨n, hn, -⟩ := hfilled.node
  have hnone : i.repository.property? path name = none := by
    rw [Repository.property?, hn]
    exact Table.get?_eq_none_iff.2 (hfilled.notMem_keys hnew hn)
  obtain ⟨p, rfl, hwrite⟩ := exists_write_of_property hopened hnone hname hvalue hrun
  rw [Import.outcome_write] at hwrite
  simp only [hn] at hwrite
  obtain ⟨-, rfl⟩ := Prod.mk.inj hwrite
  refine ⟨⟨rfl, rfl, rfl⟩, ?_, ?_⟩
  · exact hfilled.write hplain.isTree hnew hj hn fun q => Table.get?_insert ..
  · intro q hq
    refine (Table.get?_insert ..).trans (if_neg ?_)
    rintro rfl
    rw [Path.isWithin_refl] at hq
    cases hq

theorem fills_of_child (hroot : path ≠ Path.root) (hnew : name ∉ rows.map (·.1))
    (hslash : '/' ∉ name.toList) (hread : IsRead S members)
    (hrun : outcome (Import.run (node S (some name) members)) i = (.ok (), i')) :
    Fills i i' path type mixins (rows ++ [(name, arranged (.object members))]) := by
  have hnone := hfilled.hasNode_eq_false hplain.isTree hroot hnew hslash
  have hopening : ∀ type mixins, outcome (Import.openNode (some name) type mixins) i =
      outcome (Import.openChild path name type mixins) i := by
    intro type mixins
    rw [Import.openNode, outcome_bind, Import.outcome_current hopened]
  obtain ⟨hcourse, hadded⟩ := hread hplain hopened hnone hopening hrun
  refine ⟨hcourse, hfilled.add hplain.isTree hadded hnew (isObject_arranged _), ?_⟩
  intro q hq
  refine hadded.outside q ?_ ?_
  · rintro rfl
    rw [Path.isWithin_refl] at hq
    cases hq
  · rw [Bool.eq_false_iff] at hq ⊢
    exact fun hwithin => hq (Path.isWithin_trans hwithin (Path.isWithin_join_self path name))

end Fills

theorem Fills.trans {k : Import} {rows' : Json.Members} (h : Fills i k path type mixins rows)
    (h' : Fills k i' path type mixins rows') : Fills i i' path type mixins rows' :=
  ⟨h.course.trans h'.course, h'.filled, fun q hq => (h'.outside q hq).trans (h.outside q hq)⟩

/-- Members are those of content, and those that are objects are known to be read. -/
structure IsReadable (S : Supported) (members : Json.Members) : Prop where
  name : ∀ m ∈ members, m.1 = typeMember ∨ m.1 = mixinsMember ∨ IsPlainName m.1
  property : ∀ m ∈ members, isObject m.2 = false → IsPropertyValue m.2
  slash : ∀ m ∈ members, isObject m.2 = true → '/' ∉ m.1.toList
  child : ∀ name children, (name, .object children) ∈ members → IsRead S children

theorem IsReadable.tail {m : String × Json} (h : IsReadable S (m :: members)) :
    IsReadable S members where
  name := fun m hm => h.name m (List.mem_cons_of_mem _ hm)
  property := fun m hm => h.property m (List.mem_cons_of_mem _ hm)
  slash := fun m hm => h.slash m (List.mem_cons_of_mem _ hm)
  child := fun name children hm => h.child name children (List.mem_cons_of_mem _ hm)

theorem fills_of_member {rest : List String} (hreadable : IsReadable S ((name, j) :: members))
    (hname : IsPlainName name) (hplain : IsPlainImport i) (hopened : i.opened = path :: rest)
    (hroot : path ≠ Path.root) (hfilled : IsFilled i.repository path type mixins rows)
    (hnew : name ∉ rows.map (·.1))
    (hrun : outcome (Import.run (member S name j)) i = (.ok (), i')) :
    Fills i i' path type mixins (rows ++ [(name, arranged j)]) := by
  have hmem : (name, j) ∈ (name, j) :: members := List.mem_cons_self
  cases hj : isObject j with
  | false =>
    rw [member_of_isObject_eq_false hname hj] at hrun
    rw [arranged_of_isObject_eq_false hj]
    exact fills_of_property hplain hopened hfilled hname hnew hj (hreadable.property _ hmem hj) hrun
  | true =>
    obtain ⟨children, rfl⟩ : ∃ children, j = .object children := by
      cases j with
      | object children => exact ⟨children, rfl⟩
      | _ => cases hj
    rw [member_object hname.principals hname.access] at hrun
    exact fills_of_child hplain hopened hfilled hroot hnew (hreadable.slash _ hmem hj)
      (hreadable.child name children hmem) hrun

/-- **Reading members fills the node that is open**, member by member. -/
theorem fills_of_members {rest : List String} (hreadable : IsReadable S members)
    (hplain : IsPlainImport i) (hopened : i.opened = path :: rest) (hroot : path ≠ Path.root)
    (hfilled : IsFilled i.repository path type mixins rows)
    (hnodup : ((rows ++ members).map (·.1)).Nodup)
    (hrun : outcome (Import.run (JsonReader.members S members)) i = (.ok (), i')) :
    Fills i i' path type mixins (rows ++ plainRows (arrangedMembers members)) := by
  have htype : typeMember ∈ ignoredNames := by decide
  have hmixins : mixinsMember ∈ ignoredNames := by decide
  induction members generalizing rows i with
  | nil =>
    obtain ⟨-, rfl⟩ := Prod.mk.inj hrun
    rw [arrangedMembers, plainRows, List.filter_nil, List.filter_nil, List.append_nil]
    exact ⟨⟨rfl, rfl, rfl⟩, hfilled, fun _ _ => rfl⟩
  | cons m members ih =>
    obtain ⟨name, j⟩ := m
    rw [List.append_cons] at hnodup
    rw [arrangedMembers]
    have hcase : (name = typeMember ∨ name = mixinsMember) ∨ IsPlainName name :=
      or_assoc.2 (hreadable.name _ List.mem_cons_self)
    rcases hcase with heq | hname
    · have hignored : name ∈ ignoredNames := by
        rcases heq with rfl | rfl
        · exact htype
        · exact hmixins
      rw [members_cons_of_ignored hignored] at hrun
      rw [plainRows_cons_of_eq heq]
      refine ih hreadable.tail hplain hopened hfilled ?_ hrun
      exact hnodup.sublist ((List.sublist_append_left rows _).append_right members |>.map _)
    · have hne : name ≠ typeMember ∧ name ≠ mixinsMember :=
        ⟨fun heq => hname.ignored (heq ▸ htype), fun heq => hname.ignored (heq ▸ hmixins)⟩
      have hnew : name ∉ rows.map (·.1) := by
        rw [List.map_append, List.map_append] at hnodup
        have hrows := (List.nodup_append.1 hnodup).1
        intro hmem
        exact (List.nodup_append.1 hrows).2.2 _ hmem _ (List.mem_singleton_self _) rfl
      rw [members_cons hname.ignored, Import.run_bind] at hrun
      obtain ⟨u, k, hmember, hmembers⟩ := outcome_bind_eq_ok hrun
      have hfills := fills_of_member hreadable hname hplain hopened hroot hfilled hnew hmember
      rw [plainRows_cons_of_ne hne.1 hne.2, List.append_cons]
      have hplain := hplain.after (fun _ _ => Import.contained_run _) hmember
        hfills.course.options hfills.course.waiting
      refine hfills.trans (ih hreadable.tail hplain (hfills.course.opened.trans hopened)
        hfills.filled ?_ hmembers)
      simpa using hnodup

end ContentImport.JsonReader
