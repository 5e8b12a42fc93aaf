import ContentImport.Proofs.Except
import ContentImport.Proofs.Import.Step
import ContentImport.Proofs.Number.Integer
import ContentImport.Proofs.Reader.Arrangement

/-!
# Content that describes nodes as they are shown

* `IsContent` says that an object describes a node in the way in which nodes are shown, and that
  nothing in it has a meaning of its own to the reader.
* A value of a property that is read is shown as the JSON value that it was read from. That goes
  through the text of the value, whose type is told by the value itself, or by the first value of
  an array (`toJson_of_parse?`).
* So the call for a property writes a property that is shown as the value
  (`exists_write_of_property`).
-/

namespace ContentImport.JsonReader

/-! ## Content -/

/-- The kinds of values that are shown as they were read. -/
inductive ScalarKind
  | string
  | boolean
  | integer

/-- A value is of a kind. An integer is to fit in 64 bits with its sign. -/
inductive ScalarKind.Has : ScalarKind → Json → Prop
  | string (s : String) : Has .string (.string s)
  | boolean (b : Bool) : Has .boolean (.bool b)
  | integer {n : Int} (hlow : -2 ^ 63 ≤ n) (hhigh : n < 2 ^ 63) : Has .integer (.ofInt n)

/-- A value is that of a property which is shown as it was read: it is of a kind, or an array of
values of one kind. -/
inductive IsPropertyValue : Json → Prop
  | single {kind : ScalarKind} {j : Json} (h : kind.Has j) : IsPropertyValue j
  | multiple (kind : ScalarKind) {items : List Json} (h : ∀ item ∈ items, kind.Has item) :
      IsPropertyValue (.array items)

/-- A name has no meaning of its own to the reader or to the importer. -/
structure IsPlainName (name : String) : Prop where
  ignored : name ∉ ignoredNames
  principals : name ≠ principalsMember
  access : name ≠ accessMember
  checkedOut : name ≠ Import.checkedOutName
  lead : ∀ l ∈ leads, Text.startsWith l.1 name = false

/-- An object describes a node in the way in which nodes are shown. -/
inductive IsContent : Json.Members → Prop
  | intro {members : Json.Members} {type : String}
      (type_eq : members.get? typeMember = some (.string type))
      (mixins_eq : ∀ j, members.get? mixinsMember = some j →
        ∃ mixins, j = .ofStrings mixins ∧ mixins ≠ [] ∧ mixins.Nodup ∧ type ∉ mixins)
      (name : ∀ m ∈ members, m.1 = typeMember ∨ m.1 = mixinsMember ∨ IsPlainName m.1)
      (property : ∀ m ∈ members, isObject m.2 = false → IsPropertyValue m.2)
      (slash : ∀ m ∈ members, isObject m.2 = true → '/' ∉ m.1.toList)
      (child : ∀ name children, (name, .object children) ∈ members → IsContent children) :
      IsContent members

/-! ## Values -/

theorem lead?_eq_none {name : String} (h : ∀ l ∈ leads, Text.startsWith l.1 name = false) :
    lead? name = none := by
  rw [lead?, List.findSome?_eq_none_iff]
  intro l hl
  have hprefix : (l.1.toList.isPrefixOf? name.toList).isSome = false := by
    rw [List.isSome_isPrefixOf?_eq_isPrefixOf]
    exact h l hl
  rw [Option.isSome_eq_false_iff, Option.isNone_iff_eq_none] at hprefix
  rw [Text.after?, hprefix]
  rfl

variable {kind : ScalarKind} {j j₀ : Json} {name text : String} {v : Value}

theorem propertyType_string (hname : lead? name = none) (s : String) :
    propertyType name (.string s) = .date ∨ propertyType name (.string s) = .undefined := by
  simp only [propertyType, hname]
  split
  · exact .inl rfl
  · exact .inr rfl

/-- The text of a value is read as that value under the type that a value of the same kind has. -/
theorem toJson_of_parse? (hname : lead? name = none) (h₀ : kind.Has j₀) (h : kind.Has j)
    (htext : scalarText? j = some text) (hv : Value.parse? (propertyType name j₀) text = some v) :
    v.toJson = j ∧ (Property.single v).toJson = j := by
  cases h with
  | string s =>
    obtain ⟨s₀⟩ := h₀
    have htext : s = text := by simpa [scalarText?] using htext
    rw [htext]
    rcases propertyType_string hname s₀ with htype | htype
    · rw [htype, Value.parse?] at hv
      split at hv
      · obtain rfl := Option.some.inj hv
        exact ⟨rfl, rfl⟩
      · cases hv
    · rw [htype, Value.parse?] at hv
      obtain rfl := Option.some.inj hv
      exact ⟨rfl, rfl⟩
  | boolean b =>
    obtain ⟨b₀⟩ := h₀
    have htext : (if b then "true" else "false") = text := by
      simpa [scalarText?, Json.compact] using htext
    have hread : Value.parse? .boolean text = some (.boolean b) := by
      rw [← htext]
      cases b <;> rfl
    obtain rfl := Option.some.inj (hread.symm.trans hv)
    exact ⟨rfl, rfl⟩
  | @integer n hlow hhigh =>
    have htype : propertyType name j₀ = .long := by
      cases h₀
      rfl
    have htext : Integer.render n = text := by
      simpa [scalarText?, Json.ofInt, Json.compact, Json.Number.render] using htext
    obtain ⟨m, hm, hn⟩ := Integer.long?_render hlow hhigh
    rw [htype, Value.parse?, ← htext, hm, Option.map_some] at hv
    obtain rfl := Option.some.inj hv
    have hjson : (Value.long m).toJson = Json.ofInt n := by rw [Value.toJson, hn]
    exact ⟨hjson, hjson⟩

/-- A list has no values of an undefined type, but strings are read alike. -/
theorem parse_defined (type : ValueType) (text : String) :
    Value.parse? (if type = .undefined then .string else type) text = Value.parse? type text := by
  split
  · next htype => rw [htype, Value.parse?, Value.parse?]
  · rfl

theorem ScalarKind.Has.exists_text (h : kind.Has j) : ∃ text, scalarText? j = some text := by
  cases h <;> exact ⟨_, rfl⟩

/-- The values of an array are those that its texts are read as. -/
theorem map_toJson_of_parse? (hname : lead? name = none) (h₀ : kind.Has j₀) {items : List Json}
    (h : ∀ item ∈ items, kind.Has item) {vs : List Value}
    (hvs : List.Forall₂ (fun text v => Value.parse? (propertyType name j₀) text = some v)
      (items.filterMap scalarText?) vs) : vs.map Value.toJson = items := by
  induction items generalizing vs with
  | nil =>
    obtain rfl := List.forall₂_nil_left_iff.1 hvs
    rfl
  | cons item items ih =>
    obtain ⟨hitem, hitems⟩ := List.forall_mem_cons.1 h
    obtain ⟨text, htext⟩ := hitem.exists_text
    rw [List.filterMap_cons_some htext, List.forall₂_cons_left_iff] at hvs
    obtain ⟨v, vs, hv, hvs, rfl⟩ := hvs
    rw [List.map_cons, (toJson_of_parse? hname h₀ hitem htext hv).1, ih hitems hvs]

/-! ## Properties -/

section Property

open Import

variable {i i' : Import} {node : String} {rest : List String}

theorem propertyType_ne_reference (hname : lead? name = none) (h : kind.Has j) :
    propertyType name j ≠ .reference := by
  cases h with
  | string s =>
    rcases propertyType_string hname s with htype | htype
    · rw [htype]
      decide
    · rw [htype]
      decide
  | boolean => simp [propertyType]
  | integer => simp [propertyType, Json.ofInt]

theorem property_of_has (h : kind.Has j) (htext : scalarText? j = some text) :
    property name j = .call (.setProperty (propertyName name) (propertyType name j) text) := by
  cases h with
  | string | boolean => simp [property, htext]
  | integer =>
    rw [Json.ofInt] at htext ⊢
    simp [property, htext]

/-- The values of texts that are read as those of an array. -/
theorem exists_of_outcome_values {type : ValueType} {texts : List String} {vs : List Value}
    (h : outcome (values type texts) i = (.ok vs, i')) :
    i' = i ∧ List.Forall₂ (fun text v => Value.parse? type text = some v) texts vs := by
  unfold values at h
  split at h
  · next vs' hvs =>
    obtain ⟨hvs', hi⟩ := Prod.mk.inj h
    obtain rfl := Except.ok.inj hvs'
    refine ⟨hi.symm, ?_⟩
    simpa only [Value.parse_eq_ok_iff] using mapM_eq_ok_iff.1 hvs
  · cases h

/-- **A property that is read is written so that it is shown as the value that it was read
from.** -/
theorem exists_write_of_property (hopened : i.opened = node :: rest)
    (hnew : i.repository.property? node name = none) (hname : IsPlainName name)
    (hvalue : IsPropertyValue j) (hrun : outcome (run (property name j)) i = (.ok (), i')) :
    ∃ p : Property, p.toJson = j ∧
      outcome (write node name p) { i with mentioned := including i.mentioned name } =
        (.ok (), i') := by
  have hlead := lead?_eq_none hname.lead
  have hproperty : propertyName name = name := by rw [propertyName, hlead]
  cases hvalue with
  | single h =>
    obtain ⟨text, htext⟩ := h.exists_text
    rw [property_of_has h htext, hproperty, run_call, perform,
      outcome_setProperty_of_new hopened hnew, assign, if_neg (propertyType_ne_reference hlead h),
      if_neg hname.checkedOut] at hrun
    split at hrun
    · next v hv =>
      have hjson := toJson_of_parse? hlead h h htext (Value.parse_eq_ok_iff.1 hv)
      exact ⟨.single v, hjson.2, hrun⟩
    · cases hrun
  | @multiple kind items h =>
    cases items with
    | nil =>
      rw [property, hproperty, run_call, perform, outcome_setProperties_of_new hopened hnew,
        assignAll, if_neg (by decide)] at hrun
      exact ⟨.multiple .string [], rfl, hrun⟩
    | cons item items =>
      have hitem := h item List.mem_cons_self
      rw [property, hproperty, run_call, perform, outcome_setProperties_of_new hopened hnew,
        assignAll, if_neg (propertyType_ne_reference hlead hitem)] at hrun
      obtain ⟨vs, k, hvalues, hwrite⟩ := outcome_bind_eq_ok hrun
      obtain ⟨rfl, hvs⟩ := exists_of_outcome_values hvalues
      simp only [parse_defined] at hvs
      refine ⟨.multiple _ vs, ?_, hwrite⟩
      exact congrArg Json.array (map_toJson_of_parse? hlead hitem h hvs)

end Property

end ContentImport.JsonReader
