import ContentImport.Proofs.Except
import ContentImport.Proofs.Json.Equality
import ContentImport.Proofs.Repository.Shown

/-!
# The members of a shown node

Type, mixin types, properties and children of a node are shown as members of one object, where a
name stands for one member. What comes later takes the place of what came before: `Node.member?` is
what the node itself puts under a name, and a child puts itself there instead
(`Reachable.exists_members`). So all of a node is shown just if these names are apart
(`Reachable.isShown_iff`), and nothing keeps them so (`not_isShown`).
-/

namespace ContentImport

namespace Table

variable {α : Type}

/-- Rows that are put one after the other take the places of rows with their keys. -/
theorem lookup_foldl_put {rows new : List (String × α)} (h : (new.map (·.1)).Nodup) (k : String) :
    lookup k (new.foldl (fun rows row => put row.1 row.2 rows) rows) =
      (lookup k new).or (lookup k rows) := by
  induction new generalizing rows with
  | nil => rfl
  | cons row new ih =>
    obtain ⟨j, a⟩ := row
    obtain ⟨hj, hnew⟩ := List.nodup_cons.1 h
    rw [List.foldl_cons, ih hnew, lookup_put, lookup]
    split
    · next hjk => rw [lookup_eq_none_iff.2 (hjk ▸ hj)]; rfl
    · rfl

theorem nodup_foldl_put {rows : List (String × α)} (h : (rows.map (·.1)).Nodup)
    (new : List (String × α)) :
    ((new.foldl (fun rows row => put row.1 row.2 rows) rows).map (·.1)).Nodup := by
  induction new generalizing rows with
  | nil => exact h
  | cons row new ih => exact ih (nodup_put h row.1 row.2)

theorem lookup_map {β : Type} (f : α → β) (rows : List (String × α)) (k : String) :
    lookup k (rows.map fun row => (row.1, f row.2)) = (lookup k rows).map f := by
  induction rows with
  | nil => rfl
  | cons row rows ih =>
    rw [List.map_cons, lookup, lookup, ih]
    split <;> rfl

end Table

/-! ## The members of a node -/

namespace Node

variable (n : Node)

/-- The members for the types of a node. -/
def typeMembers : Json.Members :=
  (typeMember, .string n.type) ::
    (if n.mixins.isEmpty then [] else [(mixinsMember, .ofStrings n.mixins)])

/-- What a node shows of itself under a name: its property of that name, or else its type or its
mixin types, if it has any, under the names for those. -/
def member? (name : String) : Option Json :=
  ((n.properties.get? name).map Property.toJson).or (Table.lookup name n.typeMembers)

theorem members_eq : n.members =
    (n.properties.rows.map fun row => (row.1, row.2.toJson)).foldl
      (fun ms row => Table.put row.1 row.2 ms) n.typeMembers := by
  rw [members, List.foldl_map]
  rfl

theorem nodup_members : (n.members.map (·.1)).Nodup := by
  rw [members_eq]
  refine Table.nodup_foldl_put ?_ _
  rw [typeMembers]
  split <;> simp [typeMember, mixinsMember]

theorem lookup_members (name : String) : Table.lookup name n.members = n.member? name := by
  have hkeys : ((n.properties.rows.map fun row => (row.1, row.2.toJson)).map (·.1)).Nodup := by
    rw [List.map_map]
    exact n.properties.nodup
  rw [members_eq, Table.lookup_foldl_put hkeys, Table.lookup_map]
  rfl

/-- The name for the type is never without a member. -/
theorem member?_typeMember : n.member? typeMember =
    some (((n.properties.get? typeMember).map Property.toJson).getD (.string n.type)) := by
  rw [member?]
  cases n.properties.get? typeMember with
  | none => rfl
  | some p => rfl

theorem member?_of_get? {name : String} {p : Property} (h : n.properties.get? name = some p) :
    n.member? name = some p.toJson := by
  rw [member?, h]
  rfl

end Node

/-- No property is shown as an object with a type. -/
theorem Property.lookup_typeMember {p : Property} {members : Json.Members}
    (h : p.toJson = .object members) : Table.lookup Node.typeMember members = none := by
  cases p with
  | single v =>
    cases v with
    | binary bytes =>
      obtain rfl := Json.object.inj h
      rfl
    | double x =>
      change Json.ofDouble x = .object members at h
      rw [Json.ofDouble] at h
      split at h <;> cases h
    | _ => cases h
  | multiple type vs => cases h

/-- The names of children, of properties and for the type are apart, as far as it makes a
difference: a property with the name for the type may repeat the type. -/
structure Node.IsApart (n : Node) : Prop where
  child_type : Node.typeMember ∉ n.children
  property_type : ∀ p, n.properties.get? Node.typeMember = some p → p.toJson = .string n.type
  child_property : ∀ name ∈ n.children, name ≠ Node.mixinsMember → n.properties.get? name = none

namespace Repository

variable {r : Repository} {path : String}

/-! ## Children -/

section Children

variable {render : String → Except RepositoryError Json} {names : List String}
  {members members' : Json.Members}

/-- A child is put under its name, whatever stands there, and nothing else is. -/
theorem lookup_withChildren (h : withChildren render path members names = .ok members')
    (name : String) :
    (name ∈ names → ∃ child, render (Path.join path name) = .ok child ∧
      Table.lookup name members' = some child) ∧
    (name ∉ names → Table.lookup name members' = Table.lookup name members) := by
  induction names generalizing members with
  | nil =>
    obtain rfl := Except.ok.inj h
    exact ⟨fun hname => absurd hname List.not_mem_nil, fun _ => rfl⟩
  | cons first names ih =>
    rw [withChildren] at h
    obtain ⟨child, hchild, h⟩ := andThen_eq_ok_iff.1 h
    obtain ⟨hin, hout⟩ := ih h
    constructor
    · intro hname
      by_cases hrest : name ∈ names
      · exact hin hrest
      · obtain rfl := (List.mem_cons.1 hname).resolve_right hrest
        refine ⟨child, hchild, ?_⟩
        rw [hout hrest, Table.lookup_put, if_pos rfl]
    · intro hname
      rw [List.mem_cons, not_or] at hname
      obtain ⟨hne, hrest⟩ := hname
      rw [hout hrest, Table.lookup_put, if_neg (Ne.symm hne)]

theorem nodup_withChildren (h : withChildren render path members names = .ok members')
    (hnodup : (members.map (·.1)).Nodup) : (members'.map (·.1)).Nodup := by
  induction names generalizing members with
  | nil => exact Except.ok.inj h ▸ hnodup
  | cons first names ih =>
    rw [withChildren] at h
    obtain ⟨child, -, h⟩ := andThen_eq_ok_iff.1 h
    exact ih h (Table.nodup_put hnodup first child)

end Children

/-- Every child stands under its name, shown as it is by itself, and under
any other name stands what the node shows of itself. -/
theorem Reachable.exists_members (h : Reachable r) {n : Node} (hn : r.node? path = some n) :
    ∃ members, r.toJson path = .ok (.object members) ∧ (members.map (·.1)).Nodup ∧
      (∀ name ∈ n.children, ∃ child, r.toJson (Path.join path name) = .ok child ∧
        Table.lookup name members = some child) ∧
      ∀ name ∉ n.children, Table.lookup name members = n.member? name := by
  have htree := h.isTree
  have hnames : r.childNames path = some n.children := by rw [childNames, hn]; rfl
  obtain ⟨json, hjson⟩ := htree.exists_render (hasNode_iff.2 ⟨_, hnames⟩)
  have hshown := hjson _ (Nat.le_succ _)
  rw [render, hn] at hshown
  dsimp only at hshown
  rcases hmembers : withChildren (r.render r.nodes.rows.length) path n.members n.children with
    e | members
  · rw [hmembers] at hshown
    cases hshown
  rw [hmembers] at hshown
  obtain rfl := Except.ok.inj hshown
  refine ⟨members, hjson _ (Nat.le_succ _), nodup_withChildren hmembers n.nodup_members, ?_, ?_⟩
  · intro name hname
    obtain ⟨child, hchild, hlookup⟩ := (lookup_withChildren hmembers name).1 hname
    refine ⟨child, ?_, hlookup⟩
    -- any depth from the number of nodes on shows the same
    obtain ⟨json, hjson⟩ := htree.exists_render (htree.child path name ⟨_, hnames, hname⟩).2
    rw [toJson, hjson _ (Nat.le_succ _), ← hjson _ (Nat.le_refl _), hchild]
  · intro name hname
    rw [(lookup_withChildren hmembers name).2 hname, n.lookup_members]

/-! ## Loss -/

/-- All of a node is shown: its type, the properties with other names than those for the types, and
the children, each as it is by itself. -/
def IsShown (r : Repository) (path : String) (n : Node) : Prop :=
  ∃ members, r.toJson path = .ok (.object members) ∧
    Table.lookup Node.typeMember members = some (.string n.type) ∧
    (∀ name p, n.properties.get? name = some p → name ≠ Node.typeMember →
      name ≠ Node.mixinsMember → Table.lookup name members = some p.toJson) ∧
    ∀ name ∈ n.children, ∃ child, r.toJson (Path.join path name) = .ok child ∧
      Table.lookup name members = some child

/-- A shown node has a member with the name for its type, whatever that shows. -/
theorem Reachable.lookup_typeMember_ne_none (h : Reachable r) (hpath : r.hasNode path = true)
    {j : Json} (hj : r.toJson path = .ok j) :
    ∃ members, j = .object members ∧ Table.lookup Node.typeMember members ≠ none := by
  obtain ⟨names, hnames⟩ := hasNode_iff.1 hpath
  obtain ⟨n, hn, -⟩ := Option.map_eq_some_iff.1 hnames
  obtain ⟨members, hmembers, -, hin, hout⟩ := h.exists_members hn
  obtain rfl := Except.ok.inj (hj.symm.trans hmembers)
  refine ⟨members, rfl, ?_⟩
  by_cases hchild : Node.typeMember ∈ n.children
  · obtain ⟨child, -, hlookup⟩ := hin _ hchild
    rw [hlookup]
    exact Option.some_ne_none child
  · rw [hout _ hchild, Node.member?_typeMember]
    exact Option.some_ne_none _

/-- All of a node is shown just if its names are apart. -/
theorem Reachable.isShown_iff (h : Reachable r) {n : Node} (hn : r.node? path = some n) :
    r.IsShown path n ↔ n.IsApart := by
  obtain ⟨members, hmembers, -, hin, hout⟩ := h.exists_members hn
  -- a child is shown as an object with a type, as which neither a type nor a property is shown
  have hchild : ∀ name ∈ n.children, ∃ child, Table.lookup name members = some (.object child) ∧
      Table.lookup Node.typeMember child ≠ none := by
    intro name hname
    obtain ⟨child, hchild, hlookup⟩ := hin name hname
    have hnode : r.hasNode (Path.join path name) = true :=
      (h.isTree.child path name ⟨n.children, by rw [childNames, hn]; rfl, hname⟩).2
    obtain ⟨rows, rfl, hrows⟩ := h.lookup_typeMember_ne_none hnode hchild
    exact ⟨rows, hlookup, hrows⟩
  constructor
  · rintro ⟨members', hmembers', htype, hproperties, -⟩
    obtain rfl := Json.object.inj (Except.ok.inj (hmembers.symm.trans hmembers'))
    have hnotin : Node.typeMember ∉ n.children := by
      intro hname
      obtain ⟨child, hlookup, -⟩ := hchild _ hname
      rw [hlookup] at htype
      cases htype
    refine ⟨hnotin, fun p hp => ?_, fun name hname hmixins => ?_⟩
    · rw [hout _ hnotin, n.member?_of_get? hp] at htype
      exact Option.some.inj htype
    · rw [Option.eq_none_iff_forall_not_mem]
      intro p hp
      have hne : name ≠ Node.typeMember := fun heq => hnotin (heq ▸ hname)
      obtain ⟨child, hlookup, hrows⟩ := hchild name hname
      have hshown := hlookup.symm.trans (hproperties name p hp hne hmixins)
      exact hrows (Property.lookup_typeMember (Option.some.inj hshown).symm)
  · intro hapart
    refine ⟨members, hmembers, ?_, fun name p hp hne hmixins => ?_, hin⟩
    · rw [hout _ hapart.child_type, Node.member?_typeMember]
      cases hp : n.properties.get? Node.typeMember with
      | none => rfl
      | some p => exact congrArg some (hapart.property_type p hp)
    · have hnotin : name ∉ n.children := by
        intro hname
        rw [hapart.child_property name hname hmixins] at hp
        cases hp
      rw [hout name hnotin, n.member?_of_get? hp]

/-- **What a node is shown as.** Every child stands under its name, shown as it is by itself, and
under any other name stands what the node shows of itself. That is all of the node just if its names
are apart. -/
theorem Reachable.toJson_eq_members (h : Reachable r) {n : Node} (hn : r.node? path = some n) :
    (∃ members, r.toJson path = .ok (.object members) ∧ (members.map (·.1)).Nodup ∧
      (∀ name ∈ n.children, ∃ child, r.toJson (Path.join path name) = .ok child ∧
        Table.lookup name members = some child) ∧
      ∀ name ∉ n.children, Table.lookup name members = n.member? name) ∧
    (r.IsShown path n ↔ n.IsApart) :=
  ⟨h.exists_members hn, h.isShown_iff hn⟩

/-- A node with a mixin type, two properties and a child. -/
def shownOperations : List Operation :=
  [ .addNode "/" "a" "nt:folder", .addMixin "/a" "mix:title", .addNode "/a" "b" "nt:file",
    .setProperty "/a" "p" (.single (.string "x")),
    .setProperty "/a" "q" (.multiple .long [.long 1, .long 2]) ]

/-- The repository that these operations leave. -/
def shownRepository : Repository := run shownOperations (new .standard)

theorem toJson_eq_members_shown :
    shownRepository.Reachable ∧ ∃ n, shownRepository.node? "/a" = some n ∧ n.children = ["b"] ∧
      (∃ members, shownRepository.toJson "/a" = .ok (.object members) ∧
        (members.map (·.1)).Nodup ∧
        (∀ name ∈ n.children, ∃ child,
          shownRepository.toJson (Path.join "/a" name) = .ok child ∧
            Table.lookup name members = some child) ∧
        ∀ name ∉ n.children, Table.lookup name members = n.member? name) ∧
      (shownRepository.IsShown "/a" n ↔ n.IsApart) := by
  have h : shownRepository.Reachable := (Reachable.new .standard).run shownOperations
  have hchildren : (shownRepository.node? "/a").map Node.children = some ["b"] := by decide +kernel
  obtain ⟨n, hn, hnames⟩ := Option.map_eq_some_iff.1 hchildren
  exact ⟨h, n, hn, hnames, h.toJson_eq_members hn⟩

/-- A property with the name that stands for the type of its node, and a child with the name of a
property. -/
def collidingOperations : List Operation :=
  [ .addNode "/" "a" "nt:folder", .setProperty "/a" Node.typeMember (.single (.string "x")),
    .setProperty "/" "a" (.single (.string "y")) ]

/-- The repository that these operations leave. -/
def collidingRepository : Repository := run collidingOperations (new .standard)

/-- **Not all of a node needs to be shown.** One node is shown with a property in place of its type,
and one with a child in place of its property. -/
theorem not_isShown :
    collidingRepository.Reachable ∧
      (∃ n, collidingRepository.node? "/a" = some n ∧ n.type = "nt:folder" ∧
        collidingRepository.toJson "/a" = .ok (.object [(Node.typeMember, .string "x")]) ∧
        ¬ collidingRepository.IsShown "/a" n) ∧
      ∃ n, collidingRepository.node? "/" = some n ∧
        n.properties.get? "a" = some (.single (.string "y")) ∧
        collidingRepository.toJson "/" = .ok (.object [(Node.typeMember, .string "rep:root"),
          ("a", .object [(Node.typeMember, .string "x")])]) ∧
        ¬ collidingRepository.IsShown "/" n := by
  have h : collidingRepository.Reachable := (Reachable.new .standard).run collidingOperations
  have hfolder : (collidingRepository.node? "/a").map (fun n => (n.type, n.properties.get?
      Node.typeMember)) = some ("nt:folder", some (.single (.string "x"))) := by decide +kernel
  have hroot : (collidingRepository.node? "/").map (fun n => (n.children, n.properties.get? "a")) =
      some (["a"], some (.single (.string "y"))) := by decide +kernel
  obtain ⟨n, hn, hfolder⟩ := Option.map_eq_some_iff.1 hfolder
  obtain ⟨htype, hx⟩ := Prod.mk.inj hfolder
  obtain ⟨m, hm, hroot⟩ := Option.map_eq_some_iff.1 hroot
  obtain ⟨hnames, hy⟩ := Prod.mk.inj hroot
  refine ⟨h, ⟨n, hn, htype, by decide +kernel, ?_⟩, ⟨m, hm, hy, by decide +kernel, ?_⟩⟩
  · rw [h.isShown_iff hn]
    intro hapart
    have hsame : Json.string "x" = .string n.type := hapart.property_type _ hx
    rw [htype] at hsame
    exact absurd (Json.string.inj hsame) (by decide)
  · rw [h.isShown_iff hm]
    intro hapart
    have hnone := hapart.child_property "a" (by rw [hnames]; decide) (by decide)
    rw [hy] at hnone
    cases hnone

end Repository

end ContentImport
