import ContentImport.Proofs.Json.Equality
import ContentImport.Proofs.Reader.Denoted

/-!
# The names of the properties that a document sets

A member of a JSON document is ignored for the name that it has in the document. If that name begins
by telling a type, the property has the rest of it for its name, and the rest is not looked at.

* `plainNames` are the names of the members that become properties, in the objects that denote
  nodes (`mem_plainNames_iff`).
* Each of them gives one property, in the order of the document, unless the document ends before it
  with an error (`setsInOrder_members`).
* So a property has one of the names that are ignored just if a member has that name behind a type
  (`propertyNames_script`).
-/

namespace ContentImport

/-- The name of the property that a call sets. -/
def Call.propertyName? : Call → Option String
  | .setProperty name _ _ | .setProperties name _ _ => some name
  | _ => none

namespace Script

/-! ## The properties of a script -/

/-- The names of the properties that a script sets, in order. -/
def propertyNames {α : Type} (s : Script α) : List String := s.calls.filterMap Call.propertyName?

/-- A script sets properties of these names in this order, and if it fails the first of them. -/
structure SetsInOrder {α : Type} (s : Script α) (names : List String) : Prop where
  begins : s.propertyNames <+: names
  all : ∀ a, s.result = .ok a → s.propertyNames = names

variable {α β : Type} {s : Script α} {f : α → Script β} {names names' : List String}

theorem propertyNames_bind (s : Script α) (f : α → Script β) :
    (s.bind f).propertyNames = s.propertyNames ++ match s.result with
      | .ok a => (f a).propertyNames
      | .error _ => [] := by
  rw [propertyNames, bind_calls, List.filterMap_append]
  cases s.result <;> rfl

theorem setsInOrder_of_eq (h : s.propertyNames = names) : SetsInOrder s names :=
  ⟨h ▸ List.prefix_rfl, fun _ _ => h⟩

/-- A script followed by another one sets the properties of both. -/
theorem SetsInOrder.bind (hs : SetsInOrder s names) (hf : ∀ a, SetsInOrder (f a) names') :
    SetsInOrder (s.bind f) (names ++ names') := by
  cases hresult : s.result with
  | error e =>
    have heq : (s.bind f).propertyNames = s.propertyNames := by
      rw [propertyNames_bind, hresult, List.append_nil]
    have hfails : (s.bind f).result = .error e := by
      rw [Script.bind, hresult]
    refine ⟨heq ▸ hs.begins.trans (List.prefix_append _ _), fun b hb => ?_⟩
    rw [hfails] at hb
    cases hb
  | ok a =>
    have heq : (s.bind f).propertyNames = names ++ (f a).propertyNames := by
      rw [propertyNames_bind, hresult, hs.all a hresult]
    have hnext : (s.bind f).result = (f a).result := by
      rw [Script.bind, hresult]
    refine ⟨heq ▸ (List.prefix_append_right_inj _).2 (hf a).begins, fun b hb => ?_⟩
    rw [heq, (hf a).all b (hnext ▸ hb)]

/-- A script none of whose calls sets a property. -/
theorem setsInOrder_nil (h : ∀ c ∈ s.calls, c.propertyName? = none) : SetsInOrder s [] :=
  setsInOrder_of_eq (List.filterMap_eq_nil_iff.2 h)

end Script

namespace JsonReader

open Script (SetsInOrder setsInOrder_of_eq setsInOrder_nil)

/-! ## Members that become properties -/

instance (name : String) : Decidable (IsNodeName name) :=
  decidable_of_iff (name ∉ ignoredNames ∧ name ≠ principalsMember ∧ name ≠ accessMember)
    ⟨fun h => ⟨h.1, h.2.1, h.2.2⟩, fun h => ⟨h.ignored, h.principals, h.access⟩⟩

mutual

/-- The names under which a member becomes properties: those in it if it is an object, or else its
own. -/
def namesInMember (name : String) : Json → List String
  | .object children => plainNames children
  | .null => []
  | _ => [name]

/-- The names of the members that become properties, in order. -/
def plainNames : List (String × Json) → List String
  | [] => []
  | (name, value) :: r =>
    (if IsNodeName name then namesInMember name value else []) ++ plainNames r

end

/-- A member becomes a property. -/
structure IsPlainMember (name : String) (j : Json) : Prop where
  name : IsNodeName name
  object : isObject j = false
  null : j ≠ .null

variable {S : Supported} {name path n : String} {j : Json} {members : Json.Members}

theorem mem_namesInMember_iff (hname : IsNodeName name) :
    n ∈ namesInMember name j ↔
      (n = name ∧ IsPlainMember n j) ∨
        ∃ children, j = .object children ∧ n ∈ plainNames children := by
  have hplain : IsPlainMember name j ↔ isObject j = false ∧ j ≠ .null :=
    ⟨fun h => ⟨h.object, h.null⟩, fun h => ⟨hname, h.1, h.2⟩⟩
  constructor
  · intro h
    cases j with
    | object children => exact .inr ⟨children, rfl, by simpa [namesInMember] using h⟩
    | null => simp [namesInMember] at h
    | _ =>
      obtain rfl : n = name := by simpa [namesInMember] using h
      exact .inl ⟨rfl, hplain.2 ⟨rfl, nofun⟩⟩
  · rintro (⟨rfl, h⟩ | ⟨children, rfl, h⟩)
    · obtain ⟨hobject, hnull⟩ := hplain.1 h
      cases j with
      | object => cases hobject
      | null => exact absurd rfl hnull
      | _ => simp [namesInMember]
    · rwa [namesInMember]

/-- A member that becomes a property is one of the members, or in an object among them that denotes
a node. -/
theorem mem_plainNames_step : n ∈ plainNames members ↔
    (∃ j, (n, j) ∈ members ∧ IsPlainMember n j) ∨
      ∃ name children, (name, .object children) ∈ members ∧ IsNodeName name ∧
        n ∈ plainNames children := by
  induction members with
  | nil => simp [plainNames]
  | cons m members ih =>
    obtain ⟨name, value⟩ := m
    rw [plainNames, List.mem_append, ih]
    constructor
    · rintro (h | ⟨j, hmem, hj⟩ | ⟨child, children, hmem, h⟩)
      · split at h
        · next hname =>
          rcases (mem_namesInMember_iff hname).1 h with ⟨rfl, hj⟩ | ⟨children, rfl, h⟩
          · exact .inl ⟨value, List.mem_cons_self, hj⟩
          · exact .inr ⟨name, children, List.mem_cons_self, hname, h⟩
        · cases h
      · exact .inl ⟨j, List.mem_cons_of_mem _ hmem, hj⟩
      · exact .inr ⟨child, children, List.mem_cons_of_mem _ hmem, h⟩
    · rintro (⟨j, hmem, hj⟩ | ⟨child, children, hmem, hname, h⟩)
      · rcases List.mem_cons.1 hmem with heq | hmem
        · obtain ⟨rfl, rfl⟩ := Prod.mk.inj heq
          rw [if_pos hj.name]
          exact .inl ((mem_namesInMember_iff hj.name).2 (.inl ⟨rfl, hj⟩))
        · exact .inr (.inl ⟨j, hmem, hj⟩)
      · rcases List.mem_cons.1 hmem with heq | hmem
        · obtain ⟨rfl, rfl⟩ := Prod.mk.inj heq
          rw [if_pos hname]
          exact .inl ((mem_namesInMember_iff hname).2 (.inr ⟨children, rfl, h⟩))
        · exact .inr (.inr ⟨child, children, hmem, hname, h⟩)

/-- **The members that become properties are those in the objects that denote nodes.** -/
theorem mem_plainNames_iff (path : String) : n ∈ plainNames members ↔
    ∃ q ms j, Denotes path members q ms ∧ (n, j) ∈ ms ∧ IsPlainMember n j := by
  constructor
  · intro h
    -- what is in an object among the members is in a smaller value
    induction hsize : sizeOf members using Nat.strongRecOn generalizing members path with
    | ind size ih =>
      subst hsize
      rcases mem_plainNames_step.1 h with ⟨j, hmem, hj⟩ | ⟨name, children, hmem, hname, h⟩
      · exact ⟨path, members, j, .self, hmem, hj⟩
      · have hlt : sizeOf children < sizeOf members := by
          have := List.sizeOf_lt_of_mem hmem
          simp only [Prod.mk.sizeOf_spec, Json.object.sizeOf_spec] at this
          omega
        obtain ⟨q, ms, j, hdenotes, hmem', hj⟩ := ih _ hlt (Path.join path name) h rfl
        exact ⟨q, ms, j, denotes_iff.2 (.inr ⟨name, children, hmem, hname, hdenotes⟩), hmem', hj⟩
  · rintro ⟨q, ms, j, hdenotes, hmem, hj⟩
    have hin : n ∈ plainNames ms := mem_plainNames_step.2 (.inl ⟨j, hmem, hj⟩)
    clear hmem
    induction hdenotes with
    | self => exact hin
    | child _ hname hmem ih => exact ih (mem_plainNames_step.2 (.inr ⟨_, _, hmem, hname, hin⟩))

/-! ## Reading -/

/-- A property is set under its name without what tells a type. -/
theorem propertyNames_property (hobject : isObject j = false) :
    (property name j).propertyNames = (namesInMember name j).map propertyName := by
  unfold property
  split
  · rw [namesInMember]
    rfl
  · rw [namesInMember]
    · rfl
    all_goals nofun
  · rw [namesInMember]
    · rfl
    all_goals nofun
  · next hnull _ _ =>
    have hname : namesInMember name j = [name] := by
      cases j with
      | object => cases hobject
      | null => exact absurd rfl hnull
      | _ => simp [namesInMember]
    have htext : ∃ text, scalarText? j = some text := by
      cases j with
      | null => exact absurd rfl hnull
      | _ => exact ⟨_, rfl⟩
    obtain ⟨text, htext⟩ := htext
    rw [hname, htext]
    rfl

theorem setsInOrder_property (hname : IsNodeName name) (hobject : isObject j = false) :
    SetsInOrder (member S name j) ((namesInMember name j).map propertyName) := by
  rcases member_cases (S := S) (j := j) hname.principals hname.access with ⟨_, rfl, -⟩ | ⟨-, h⟩
  · cases hobject
  · rw [h]
    exact setsInOrder_of_eq (propertyNames_property hobject)

/-- The properties of a node are set after it is opened and before it is closed. -/
theorem setsInOrder_node (opening : Option String) {names : List String}
    (h : SetsInOrder (JsonReader.members S members) names) :
    SetsInOrder (node S opening members) names := by
  have hopen : ∀ c, SetsInOrder (Script.call c) [] → SetsInOrder ((Script.call c).bind fun _ =>
      (JsonReader.members S members).bind fun _ => Script.call .closeNode) names := by
    intro c hc
    have hclose : SetsInOrder (Script.call .closeNode) [] :=
      setsInOrder_nil (List.forall_mem_singleton.2 rfl)
    simpa using hc.bind fun _ => h.bind fun _ => hclose
  change SetsInOrder ((Script.ofResult (openCall opening members)).bind fun c =>
    (Script.call c).bind fun _ =>
      (JsonReader.members S members).bind fun _ => Script.call .closeNode) names
  cases hcall : openCall opening members with
  | error e => exact ⟨List.nil_prefix, nofun⟩
  | ok c =>
    obtain ⟨mixins, -, hc⟩ := andThen_eq_ok_iff.1 hcall
    obtain rfl := Except.ok.inj hc
    exact hopen _ (setsInOrder_nil (List.forall_mem_singleton.2 rfl))

mutual

theorem setsInOrder_member (S : Supported) {name : String} (hname : IsNodeName name) :
    ∀ j, SetsInOrder (member S name j) ((namesInMember name j).map propertyName)
  | .object children => by
    rw [member_object hname.principals hname.access, namesInMember]
    exact setsInOrder_node _ (setsInOrder_members S children)
  | .null | .bool _ | .number _ | .string _ | .array _ => setsInOrder_property hname rfl

/-- **The members of an object set the properties of their names, in order.** -/
theorem setsInOrder_members (S : Supported) :
    ∀ members, SetsInOrder (JsonReader.members S members) ((plainNames members).map propertyName)
  | [] => by
    rw [JsonReader.members, plainNames]
    exact setsInOrder_nil (List.forall_mem_nil _)
  | (name, j) :: r => by
    have hrest := setsInOrder_members S r
    rw [plainNames, List.map_append]
    by_cases hignored : name ∈ ignoredNames
    · rw [members_cons_of_ignored hignored, if_neg fun h => h.ignored hignored]
      exact hrest
    rw [members_cons hignored]
    refine SetsInOrder.bind ?_ fun _ => hrest
    by_cases hprincipals : name = principalsMember
    · rw [if_neg fun h => h.principals hprincipals, hprincipals, member_principals]
      exact setsInOrder_nil (forall_mem_calls_principals (fun _ _ _ => rfl) (fun _ _ _ => rfl) j)
    by_cases haccess : name = accessMember
    · rw [if_neg fun h => h.access haccess, haccess, member_access]
      exact setsInOrder_nil (forall_mem_calls_accessList (fun _ _ _ => rfl) S j)
    · have hname : IsNodeName name := ⟨hignored, hprincipals, haccess⟩
      rw [if_pos hname]
      exact setsInOrder_member S hname j

end

/-! ## Names that are ignored -/

/-- No beginning of a name that tells a type begins another one. -/
theorem propertyName_append {l : String × ValueType} (hl : l ∈ leads) (n : String) :
    propertyName (l.1 ++ n) = n := by
  have hlead : lead? (l.1 ++ n) = some (n, l.2) := by
    simp only [leads, List.mem_cons, List.not_mem_nil, or_false] at hl
    rcases hl with rfl | rfl | rfl | rfl <;>
      simp [lead?, leads, Text.after?, List.isPrefixOf?]
  rw [propertyName, hlead]

/-- The name of a property is that of a member, or stands behind a type there. -/
theorem propertyName_eq_iff :
    propertyName name = n ↔ (lead? name = none ∧ name = n) ∨ ∃ l ∈ leads, name = l.1 ++ n := by
  constructor
  · intro h
    cases hlead : lead? name with
    | none =>
      rw [propertyName, hlead] at h
      exact .inl ⟨rfl, h⟩
    | some found =>
      rw [propertyName, hlead] at h
      obtain ⟨l, hl, hfound⟩ := List.exists_of_findSome?_eq_some hlead
      obtain ⟨rest, hrest, rfl⟩ := Option.map_eq_some_iff.1 hfound
      obtain rfl : rest = n := h
      exact .inr ⟨l, hl, Text.after?_eq_some_iff.1 hrest⟩
  · rintro (⟨hlead, rfl⟩ | ⟨l, hl, rfl⟩)
    · rw [propertyName, hlead]
    · exact propertyName_append hl n

/-- A name that stands behind a type has no meaning of its own. -/
theorem isNodeName_append {l : String × ValueType} (hl : l ∈ leads) (n : String) :
    IsNodeName (l.1 ++ n) := by
  simp only [leads, List.mem_cons, List.not_mem_nil, or_false] at hl
  have hne : ∀ s ∈ principalsMember :: accessMember :: ignoredNames, l.1 ++ n ≠ s := by
    intro s hs heq
    have hprefix : l.1.toList.isPrefixOf s.toList = true := by
      rw [← heq, String.toList_append, List.isPrefixOf_iff_prefix]
      exact List.prefix_append _ _
    have hnone : ∀ s ∈ principalsMember :: accessMember :: ignoredNames,
        l.1.toList.isPrefixOf s.toList = false := by
      rcases hl with rfl | rfl | rfl | rfl <;> decide
    rw [hnone s hs] at hprefix
    cases hprefix
  exact ⟨fun h => hne _ (.tail _ (.tail _ h)) rfl, hne _ (.head _), hne _ (.tail _ (.head _))⟩

/-- Some object that denotes a node has a member with the name behind a type. The value of the
member is neither an object nor null. -/
def HasBehindType (members : Json.Members) (n : String) : Prop :=
  ∃ l ∈ leads, ∃ path q ms j, Denotes path members q ms ∧ (l.1 ++ n, j) ∈ ms ∧
    isObject j = false ∧ j ≠ .null

/-- **A property has a name that is ignored just if a member has that name behind a type.** -/
theorem mem_map_propertyName_iff (hn : n ∈ ignoredNames) :
    n ∈ (plainNames members).map propertyName ↔ HasBehindType members n := by
  rw [List.mem_map]
  constructor
  · rintro ⟨name, hname, heq⟩
    obtain ⟨q, ms, j, hdenotes, hmem, hplain⟩ := (mem_plainNames_iff Path.root).1 hname
    rcases propertyName_eq_iff.1 heq with ⟨-, rfl⟩ | ⟨l, hl, rfl⟩
    · exact absurd hn hplain.name.ignored
    · exact ⟨l, hl, Path.root, q, ms, j, hdenotes, hmem, hplain.object, hplain.null⟩
  · rintro ⟨l, hl, path, q, ms, j, hdenotes, hmem, hobject, hnull⟩
    refine ⟨l.1 ++ n, (mem_plainNames_iff path).2 ⟨q, ms, j, hdenotes, hmem, ?_⟩,
      propertyName_append hl n⟩
    exact ⟨isNodeName_append hl n, hobject, hnull⟩

/-! ## Documents -/

variable {bytes : Bytes} {text : String}

/-- **The properties that a document sets have the names of its plain members, in order,** without
what tells a type; if the document fails, they are the first of them. So one of the names that are
ignored is the name of a property only if a member has it behind a type, and if the document does
not fail then it is. -/
theorem propertyNames_script (htext : decode bytes = .ok text)
    (hobject : document? text = .ok members) (definitions : List RestrictionDefinition) :
    (script definitions bytes).propertyNames <+: (plainNames members).map propertyName ∧
      ((script definitions bytes).result = .ok () →
        (script definitions bytes).propertyNames = (plainNames members).map propertyName) ∧
      ∀ n ∈ ignoredNames,
        (n ∈ (script definitions bytes).propertyNames → HasBehindType members n) ∧
        ((script definitions bytes).result = .ok () → HasBehindType members n →
          n ∈ (script definitions bytes).propertyNames) := by
  have hsets := setsInOrder_node none
    (setsInOrder_members (supported definitions) members)
  rw [← script_eq_node htext hobject definitions] at hsets
  refine ⟨hsets.begins, hsets.all (), fun n hn => ⟨fun h => ?_, fun hok h => ?_⟩⟩
  · exact (mem_map_propertyName_iff hn).1 (hsets.begins.subset h)
  · rw [hsets.all () hok]
    exact (mem_map_propertyName_iff hn).2 h

/-- A document with two identifiers, the second one in the object of a child and behind a type. -/
def typedText : String :=
  "\x7b\"jcr:uuid\":\"a\",\"b\":\x7b\"jcr:name:jcr:uuid\":\"c\",\"jcr:uri:d\":1\x7d\x7d"

/-- What the document describes. -/
def typedMembers : Json.Members :=
  [ ("jcr:uuid", .string "a"),
    ("b", .object [("jcr:name:jcr:uuid", .string "c"), ("jcr:uri:d", .ofInt 1)]) ]

theorem decode_typedText : decode (Utf8.encode typedText) = .ok typedText := by
  decide +kernel

theorem document?_typedText : document? typedText = .ok typedMembers := by
  decide +kernel

theorem propertyNames_script_typedText :
    decode (Utf8.encode typedText) = .ok typedText ∧
      document? typedText = .ok typedMembers ∧
      (script [] (Utf8.encode typedText)).result = .ok () ∧
      (script [] (Utf8.encode typedText)).propertyNames = ["jcr:uuid", "d"] ∧
      HasBehindType typedMembers "jcr:uuid" := by
  have hresult : (script [] (Utf8.encode typedText)).result = .ok () := by
    rw [script_eq_node decode_typedText document?_typedText]
    decide +kernel
  obtain ⟨-, hnames, hignored⟩ := propertyNames_script decode_typedText document?_typedText []
  have hset : (script [] (Utf8.encode typedText)).propertyNames = ["jcr:uuid", "d"] :=
    (hnames hresult).trans (by decide +kernel)
  refine ⟨decode_typedText, document?_typedText, hresult, hset,
    (hignored "jcr:uuid" (by decide)).1 ?_⟩
  rw [hset]
  decide

/-- **A document can set properties with names that are ignored,** since only the name that a member
has in the document is compared with them. -/
theorem ignored_name_set :
    ¬ ∀ (definitions : List RestrictionDefinition) (bytes : Bytes), ∀ n ∈ ignoredNames,
      n ∉ (script definitions bytes).propertyNames := by
  intro hignored
  refine hignored [] (Utf8.encode typedText) "jcr:uuid" (by decide) ?_
  rw [script_eq_node decode_typedText document?_typedText]
  decide +kernel

end JsonReader

end ContentImport
