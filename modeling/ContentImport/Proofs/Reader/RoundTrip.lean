import ContentImport.Proofs.Import.Merge
import ContentImport.Proofs.Json.Equality
import ContentImport.Proofs.Reader.Entries
import ContentImport.Proofs.Reader.Filled

/-!
# Documents that are shown as they were read

A JSON document that describes nodes in the way in which nodes are shown (`IsContent`) is exported
again as it was imported, but for the order of members (`toJson_load`).

* An object in which the other objects are read as what they describe is read as what it describes
  (`isRead_of_readable`): its node is opened, filled and closed. By induction so is all content
  (`IsContent.isRead`).
* A document is read as a new child of the target, and nothing is removed afterwards, since default
  options do not merge.
-/

namespace ContentImport.JsonReader

open Import (IsContained)

variable {r : Repository} {path name type : String} {mixins : List String}
  {rows members : Json.Members} {S : Supported}

/-! ## Objects -/

/-- The member for mixin types, if there are any. -/
def mixinRows (mixins : List String) : Json.Members :=
  if mixins.isEmpty then [] else [(mixinsMember, .ofStrings mixins)]

/-- The mixin types of content are read as they are. -/
theorem exists_mixins (h : ∀ j, members.get? mixinsMember = some j →
      ∃ mixins, j = .ofStrings mixins ∧ mixins ≠ [] ∧ mixins.Nodup ∧ type ∉ mixins) :
    ∃ mixins, JsonReader.mixins members = .ok mixins ∧ mixins.Nodup ∧ type ∉ mixins ∧
      ((members.get? mixinsMember).map fun j => (mixinsMember, arranged j)).toList =
        mixinRows mixins := by
  cases hj : members.get? mixinsMember with
  | none => exact ⟨[], by rw [JsonReader.mixins, hj], List.nodup_nil, List.not_mem_nil, rfl⟩
  | some j =>
    obtain ⟨mixins, rfl, hne, hnodup, htype⟩ := h j hj
    refine ⟨mixins, ?_, hnodup, htype, ?_⟩
    · rw [JsonReader.mixins, hj]
      exact strings_ofStrings mixinsMember mixins
    · rw [mixinRows, if_neg (by simpa using hne)]
      rfl

theorem map_fst_arrangedMembers (members : Json.Members) :
    (arrangedMembers members).map (·.1) = members.map (·.1) := by
  rw [arrangedMembers_eq, List.map_map]
  rfl

/-- The arranged member with a name. -/
theorem filter_arrangedMembers (hnodup : (members.map (·.1)).Nodup) (k : String) :
    (arrangedMembers members).filter (·.1 == k) =
      ((members.get? k).map fun j => (k, arranged j)).toList := by
  have hfilter : (arrangedMembers members).filter (·.1 == k) =
      (members.filter (·.1 == k)).map fun m => (m.1, arranged m.2) := by
    rw [arrangedMembers_eq, List.filter_map]
    rfl
  rw [hfilter, Table.filter_key hnodup, Json.Members.get?]
  cases Table.lookup k members <;> rfl

/-- The members of content in order: the type, the mixin types and the others. -/
theorem inOrder_arrangedMembers (hnodup : (members.map (·.1)).Nodup)
    (htype : members.get? typeMember = some (.string type))
    (hmixins : ((members.get? mixinsMember).map fun j => (mixinsMember, arranged j)).toList =
      mixinRows mixins) :
    inOrder (arrangedMembers members) =
      (typeMember, .string type) :: mixinRows mixins ++
        childrenLast (plainRows (arrangedMembers members)) := by
  have htyped := filter_arrangedMembers hnodup typeMember
  have hmixed := filter_arrangedMembers hnodup mixinsMember
  have hother : ((arrangedMembers members).filter fun m => !(m.1 == typeMember)).filter
      (·.1 == mixinsMember) = (arrangedMembers members).filter (·.1 == mixinsMember) := by
    rw [List.filter_filter]
    refine List.filter_congr fun m _ => ?_
    by_cases hm : m.1 = mixinsMember
    · have hne : mixinsMember ≠ typeMember := by decide
      simp [hm, hne]
    · simp [hm]
  rw [htype] at htyped
  rw [inOrder, firstOf, firstOf, hother, htyped, hmixed, hmixins]
  rfl

theorem foldl_withMixin {n : Node} (htype : n.type ∉ mixins) (hnodup : (n.mixins ++ mixins).Nodup) :
    mixins.foldl Import.withMixin n = { n with mixins := n.mixins ++ mixins } := by
  induction mixins generalizing n with
  | nil => rw [List.foldl_nil, List.append_nil]
  | cons mixin mixins ih =>
    rw [List.mem_cons, not_or] at htype
    have hmixin : mixin ∉ n.mixins := fun hmem =>
      (List.nodup_append.1 hnodup).2.2 _ hmem _ List.mem_cons_self rfl
    have hadd : Import.withMixin n mixin = { n with mixins := n.mixins ++ [mixin] } := by
      simp [Import.withMixin, Node.hasType, htype.1, hmixin]
    rw [List.append_cons] at hnodup ⊢
    rw [List.foldl_cons, hadd]
    exact ih (n := { n with mixins := n.mixins ++ [mixin] }) htype.2 hnodup

/-- A node that is filled is shown with all its rows. -/
theorem IsFilled.shows_node (h : IsFilled r path type mixins rows)
    (hnodup : (((typeMember, .string type) :: mixinRows mixins ++ childrenLast rows).map
      (·.1)).Nodup) :
    r.Shows path
      (.object ((typeMember, .string type) :: mixinRows mixins ++ childrenLast rows)) := by
  obtain ⟨n, hn, rfl, rfl, hproperties, hchildren⟩ := h.node
  have hlast : childrenLast rows =
      (rows.filter fun m => !isObject m.2) ++ rows.filter fun m => isObject m.2 := by
    simp [childrenLast, firstOf]
  rw [hlast, ← List.append_assoc] at hnodup ⊢
  have hmembers : n.members =
      (typeMember, .string n.type) :: mixinRows n.mixins ++ rows.filter fun m => !isObject m.2 := by
    rw [List.map_append] at hnodup
    rw [← hproperties] at hnodup ⊢
    rw [← Table.foldl_put_of_nodup (List.nodup_append.1 hnodup).1, List.foldl_map]
    rfl
  rw [← hmembers] at hnodup ⊢
  refine Repository.shows_of_children hn hchildren (fun row hrow => ?_) hnodup
  obtain ⟨hrow, hobject⟩ := List.mem_filter.1 hrow
  exact h.shows row hrow hobject

/-- The parts of reading an object: the node is opened, the members are read, and the node is
closed. -/
theorem run_node (hmixins : JsonReader.mixins members = .ok mixins)
    (htype : members.get? typeMember = some (.string type)) (opening : Option String) :
    Import.run (node S opening members) = (do
      Import.openNode opening (some type) mixins
      Import.run (JsonReader.members S members)
      Import.closeNode) := by
  have hcall : openCall opening members = .ok (.openNode opening (some type) mixins) := by
    rw [openCall, hmixins, htype]
    rfl
  have hnode : node S opening members =
      (Script.call (.openNode opening (some type) mixins)).bind fun _ =>
        (JsonReader.members S members).bind fun _ => Script.call .closeNode := by
    have haround : node S opening members = (Script.ofResult (openCall opening members)).bind
        fun c => (Script.call c).bind fun _ =>
          (JsonReader.members S members).bind fun _ => Script.call .closeNode := rfl
    rw [haround, hcall]
    rfl
  rw [hnode, Import.run_bind, Import.run_call]
  simp only [Import.run_bind, Import.run_call]
  rfl

/-- **Reading an object adds what it describes**, if that is so of the objects in it. -/
theorem isRead_of_readable (hnodup : (members.map (·.1)).Nodup)
    (htype : members.get? typeMember = some (.string type))
    (hmixins : ∀ j, members.get? mixinsMember = some j →
      ∃ mixins, j = .ofStrings mixins ∧ mixins ≠ [] ∧ mixins.Nodup ∧ type ∉ mixins)
    (hreadable : IsReadable S members) : IsRead S members := by
  intro opening i i' parent name rest hplain hopened hnew hopening hrun
  obtain ⟨mixins, hread, hdistinct, hother, hrows⟩ := exists_mixins hmixins
  rw [run_node hread htype] at hrun
  obtain ⟨u, i₁, hopen, hrun⟩ := outcome_bind_eq_ok hrun
  obtain ⟨u, i₂, hmembers, hclose⟩ := outcome_bind_eq_ok hrun
  rw [hopening] at hopen
  rcases Import.openChild_cases_of_new hplain.overwrite (some type) mixins hnew with
    ⟨e, hfail⟩ | ⟨r, n, hname, hparent, hok, hr⟩
  · rw [hfail] at hopen
    cases hopen
  have hstill := hplain.after (fun _ _ => Import.contained_openNode _ _ _)
    ((hopening (some type) mixins).trans hok) rfl rfl
  rw [hok] at hopen
  obtain ⟨-, rfl⟩ := Prod.mk.inj hopen
  have hroot : Path.join parent name ≠ Path.root := by
    intro hroot
    rw [hroot, hplain.isTree.root] at hnew
    cases hnew
  have hempty : IsFilled r (Path.join parent name) type mixins [] := by
    refine ⟨⟨_, (hr _).trans (if_pos rfl), ?_⟩, List.forall_mem_nil _⟩
    rw [foldl_withMixin hother (by simpa using hdistinct)]
    exact ⟨rfl, rfl, rfl, rfl⟩
  have hfills := fills_of_members hreadable hstill rfl hroot hempty (by simpa using hnodup) hmembers
  obtain ⟨hcourse, hfilled, houtside⟩ := hfills
  have hopened₂ : i₂.opened = Path.join parent name :: i.opened := hcourse.opened
  have hmerge : i₂.options.propertyMerge = false := by
    rw [hcourse.options]
    exact hplain.propertyMerge
  have hwaiting : i₂.waiting.get? (Path.join parent name) = none := by
    rw [hcourse.waiting]
    exact hplain.waiting _
  rw [Import.outcome_closeNode_of_none hopened₂ hmerge hwaiting] at hclose
  obtain ⟨-, rfl⟩ := Prod.mk.inj hclose
  have hself : Path.isWithin parent (Path.join parent name) = false :=
    Path.isWithin_join_eq_false (Path.isWithin_refl parent) hroot
  have hne : ∀ q, Path.isWithin q (Path.join parent name) = false → Path.join parent name ≠ q := by
    rintro q hq rfl
    rw [Path.isWithin_refl] at hq
    cases hq
  refine ⟨⟨rfl, hcourse.options, hcourse.waiting⟩, hname, ⟨n, hparent, ?_⟩, fun q hq hwithin => ?_,
    ?_⟩
  · rw [houtside parent hself]
    exact (hr parent).trans ((if_neg (hne parent hself)).trans (if_pos rfl))
  · rw [houtside q hwithin]
    exact (hr q).trans ((if_neg (hne q hwithin)).trans (if_neg fun heq => hq heq.symm))
  · rw [arranged, inOrder_arrangedMembers hnodup htype hrows]
    refine hfilled.shows_node ?_
    rw [List.nil_append, ← inOrder_arrangedMembers hnodup htype hrows]
    have hperm := (inOrder_perm (arrangedMembers members)).map (·.1)
    rw [map_fst_arrangedMembers] at hperm
    exact hperm.nodup_iff.2 hnodup

/-- **Content is read as what it describes.** The induction is on the objects in it. -/
theorem IsContent.isRead (h : IsContent members)
    (hdistinct : Json.HasDistinctNames (.object members)) : IsRead S members := by
  induction h with
  | @intro members type htype hmixins hname hproperty hslash _ ih =>
    refine isRead_of_readable hdistinct.nodup htype hmixins ⟨hname, hproperty, hslash, ?_⟩
    exact fun name children hmem => ih name children hmem (hdistinct.member hmem)

/-! ## Documents -/

variable {l : Loader} {clock : Int} {reader : DocumentReader} {s : Source} {target : String}
  {bytes : Bytes} {text : String} {created : List String}

/-- The script of a document that is written in JSON. -/
theorem script_of_document (hformat : reader.format = .ok .json) (hbytes : s.bytes = .ok bytes)
    (htext : decode bytes = .ok text) (hobject : document? text = .ok members)
    (definitions : List RestrictionDefinition) :
    reader.script definitions s = node (supported definitions) none members := by
  have hseen : (reader.seen s).bytes = .ok bytes := by
    rw [DocumentReader.seen]
    split <;> exact hbytes
  have hscript : reader.script definitions s = script definitions bytes := by
    rw [DocumentReader.script, hformat]
    change DocumentFormat.script definitions (reader.seen s) .json = _
    rw [DocumentFormat.script, hseen]
  rw [hscript]
  exact script_eq_node htext hobject definitions

/-- What a text describes has distinct names. -/
theorem hasDistinctNames_of_document? (h : document? text = .ok members) :
    Json.HasDistinctNames (.object members) := by
  unfold document? at h
  dsimp only at h
  split at h
  · next hparse =>
    obtain rfl := Except.ok.inj h
    exact Json.hasDistinctNames_of_parse? hparse
  · cases h

/-- **What is imported from JSON content is exported as that content,** but for the order of
members: each node is shown with its type, its mixin types, its properties and its children, the
latter two in the order of the document. -/
theorem toJson_load (hr : r.Reachable) (hoptions : l.options = {})
    (hformat : reader.format = .ok .json) (hbytes : s.bytes = .ok bytes)
    (htext : decode bytes = .ok text) (hobject : document? text = .ok members)
    (hcontent : IsContent members) (hunused : r.hasNode (Path.join target name) = false)
    (hload : (outcome (l.load clock reader s target (some name)) r).1 = .ok created) :
    (outcome (l.load clock reader s target (some name)) r).2.toJson (Path.join target name) =
        .ok (arranged (.object members)) ∧
      Json.Reordered (.object members) (arranged (.object members)) := by
  refine ⟨?_, reordered_arranged _⟩
  obtain ⟨i, htarget, hrun, hleft⟩ := Loader.exists_run_of_load hload
  rw [script_of_document hformat hbytes htext hobject] at hrun
  have hread : IsRead (supported r.restrictions) members :=
    hcontent.isRead (hasDistinctNames_of_document? hobject)
  have hplain : IsPlainImport
      { Import.new l.options clock r with opened := [target], defaultName := some name } := by
    refine ⟨⟨target, Import.new l.options clock r, hr, ?_⟩, ?_, ?_, fun _ => rfl⟩
    · have hprepared := (Import.contained_prepare (some name) _
        (Import.isContained_new l.options clock r target)).1
      rw [Import.outcome_prepare htarget] at hprepared
      exact hprepared
    · exact congrArg ImportOptions.overwrite hoptions
    · exact congrArg ImportOptions.propertyMerge hoptions
  obtain ⟨hcourse, hadded⟩ := hread hplain rfl hunused (fun _ _ => by
    simp [Import.openNode, Import.current]) hrun
  have hmerge : i.options.merge = false := by
    rw [hcourse.options]
    exact congrArg ImportOptions.merge hoptions
  have hfinish : outcome Import.finish i = (.ok (), i) := by
    simp [Import.finish, hmerge]
  have hstill := hplain.after (fun _ _ => Import.contained_run _) hrun hcourse.options
    hcourse.waiting
  rw [hleft, hfinish]
  exact hstill.isTree.toJson_of_shows hadded.shows

/-- A document whose members are not in order, without the braces around it. -/
def pageText : String :=
  "\"a\":\x7b\"jcr:primaryType\":\"u\"\x7d,\"b\":[1],\"jcr:primaryType\":\"t\""

/-- What the document describes. -/
def pageMembers : Json.Members :=
  [ ("a", .object [("jcr:primaryType", .string "u")]), ("b", .array [.ofInt 1]),
    ("jcr:primaryType", .string "t") ]

theorem isContent_pageMembers : IsContent pageMembers := by
  have hchild : IsContent [("jcr:primaryType", .string "u")] := by
    refine .intro rfl (fun j hj => by cases hj) ?_ ?_ ?_ ?_
    · exact List.forall_mem_singleton.2 (.inl rfl)
    · exact List.forall_mem_singleton.2 fun _ => .single (.string "u")
    · exact List.forall_mem_singleton.2 fun h => by cases h
    · intro name children h
      cases List.mem_singleton.1 h
  have hone : ∀ item ∈ [Json.ofInt 1], ScalarKind.integer.Has item :=
    List.forall_mem_singleton.2 (.integer (by decide) (by decide))
  have hmem : ∀ m ∈ pageMembers, m = ("a", .object [("jcr:primaryType", .string "u")]) ∨
      m = ("b", .array [.ofInt 1]) ∨ m = ("jcr:primaryType", .string "t") := by
    simp [pageMembers]
  refine .intro rfl (fun j hj => by cases hj) ?_ ?_ ?_ ?_
  · intro m hm
    rcases hmem m hm with rfl | rfl | rfl
    · exact .inr (.inr ⟨by decide, by decide, by decide, by decide, by decide⟩)
    · exact .inr (.inr ⟨by decide, by decide, by decide, by decide, by decide⟩)
    · exact .inl rfl
  · intro m hm hobject
    rcases hmem m hm with rfl | rfl | rfl
    · cases hobject
    · exact .multiple .integer hone
    · exact .single (.string "t")
  · intro m hm hobject
    rcases hmem m hm with rfl | rfl | rfl
    · decide
    · cases hobject
    · cases hobject
  · intro name children h
    rcases hmem _ h with h | h | h <;> cases h
    exact hchild

/-- The source of the document. -/
def pageSource : Source := { bytes := .ok (Utf8.encode pageText), origin := ⟨Table.empty, none, 0⟩ }

/-- What loading the document into a new repository returns and leaves. -/
def pageLoad : Except ImportError (List String) × Repository :=
  outcome ((Loader.ofConfig {}).load 0 (.ofFormat .json) pageSource "/" (some "x"))
    (.new Registry.standard)

theorem toJson_load_page :
    decode (Utf8.encode pageText) = .ok pageText ∧ document? pageText = .ok pageMembers ∧
      IsContent pageMembers ∧ pageLoad.1 = .ok ["/x", "/x/a"] ∧
      pageLoad.2.toJson "/x" = .ok (.object
        [ ("jcr:primaryType", .string "t"), ("b", .array [.ofInt 1]),
          ("a", .object [("jcr:primaryType", .string "u")]) ]) := by
  have htext : decode (Utf8.encode pageText) = .ok pageText := by decide +kernel
  have hobject : document? pageText = .ok pageMembers := by decide +kernel
  have hload : pageLoad.1 = .ok ["/x", "/x/a"] := by decide +kernel
  refine ⟨htext, hobject, isContent_pageMembers, hload, ?_⟩
  exact (toJson_load (.new .standard) rfl rfl rfl htext hobject isContent_pageMembers
    (by decide +kernel) hload).1

end ContentImport.JsonReader
