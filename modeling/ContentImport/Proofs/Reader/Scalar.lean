import ContentImport.Proofs.Import.Reference
import ContentImport.Proofs.Json.Equality
import ContentImport.Proofs.Json.Number
import ContentImport.Proofs.Number.Decimal
import ContentImport.Proofs.Reader.Denoted

/-!
# Properties from the scalars of a document

The reader hands a scalar on as a text with a type, and the importer reads the text as a value of
that type.

* `exists_parse?` says that both agree on what they call a number, a date and so on: the text is
  read, and as the value that the scalar is (`IsReadAs`). Only an integer that is no signed 64-bit
  integer has no such value (`parse?_large`).
* `outcome_member_scalar` says what becomes of a scalar that is a member of an object.
-/

namespace ContentImport.JsonReader

variable {name text : String} {j : Json} {raw : Json.Raw} {depth : Nat} {n : Int}

/-! ## Scalars -/

/-- A value is a string, a truth value or a number. -/
def isScalar : Json → Bool
  | .string _ | .bool _ | .number _ => true
  | _ => false

/-- A member with a scalar is read as a value: truth values and numbers as themselves, strings as
values with the same text. -/
inductive IsReadAs (name : String) : Json → Value → Prop
  | string {s : String} {v : Value} (htext : v.text = s)
      (htype : propertyType name (.string s) = .undefined ∧ v.type = .string ∨
        propertyType name (.string s) = v.type) : IsReadAs name (.string s) v
  | boolean (b : Bool) : IsReadAs name (.bool b) (.boolean b)
  | long {n : Int} {m : Int64} (h : m.toInt = n) : IsReadAs name (.ofInt n) (.long m)
  | double (x : Binary64) : IsReadAs name (.number (.double x)) (.double x)

theorem property_of_isScalar (h : isScalar j = true) :
    ∃ text, scalarText? j = some text ∧
      property name j = .call (.setProperty (propertyName name) (propertyType name j) text) := by
  cases j with
  | string s => exact ⟨s, rfl, rfl⟩
  | bool | number => exact ⟨_, rfl, rfl⟩
  | null | array | object => cases h

/-! ## Values -/

/-- A string has a value of the type that the beginning of a name tells. -/
theorem exists_parse?_lead {l : String × ValueType} (hl : l ∈ leads) (s : String) :
    ∃ v, Value.parse? l.2 s = some v ∧ v.text = s ∧ v.type = l.2 := by
  simp only [leads, List.mem_cons, List.not_mem_nil, or_false] at hl
  rcases hl with rfl | rfl | rfl | rfl <;> exact ⟨_, rfl, rfl, rfl⟩

theorem exists_parse?_string (name s : String) :
    ∃ v, Value.parse? (propertyType name (.string s)) s = some v ∧
      IsReadAs name (.string s) v := by
  cases hlead : lead? name with
  | some lead =>
    obtain ⟨rest, t⟩ := lead
    have htype : propertyType name (.string s) = t := by rw [propertyType, hlead]
    obtain ⟨l, hl, hmap⟩ := List.exists_of_findSome?_eq_some hlead
    obtain ⟨_, -, heq⟩ := Option.map_eq_some_iff.1 hmap
    obtain ⟨-, rfl⟩ := Prod.mk.inj heq
    obtain ⟨v, hv, htext, hvtype⟩ := exists_parse?_lead hl s
    rw [htype]
    exact ⟨v, hv, .string htext (.inr (htype.trans hvtype.symm))⟩
  | none =>
    by_cases hdate : Timestamp.isDateText s = true
    · have htype : propertyType name (.string s) = .date := by simp [propertyType, hlead, hdate]
      refine ⟨.date s, ?_, .string rfl (.inr htype)⟩
      rw [htype, Value.parse?, if_pos hdate]
    · have htype : propertyType name (.string s) = .undefined := by
        simp [propertyType, hlead, hdate]
      refine ⟨.string s, ?_, .string rfl (.inl ⟨htype, rfl⟩)⟩
      rw [htype, Value.parse?]

/-- An integer that is no signed 64-bit integer has no value of its type. -/
theorem parse?_large (hn : 2 ^ 63 ≤ n) : Value.parse? .long (Integer.render n) = none := by
  rw [Value.parse?, Integer.trim_render, Integer.long?, Integer.signed?_render, Option.bind_some,
    Integer.toLong?, if_neg (by omega), Option.map_none]

/-- **The text of a scalar is read as the scalar,** if an integer is not too large. -/
theorem exists_parse? (hraw : raw.value? depth = some j) (hscalar : isScalar j = true)
    (hfits : ∀ n, j = .ofInt n → n < 2 ^ 63) (htext : scalarText? j = some text) :
    ∃ v, Value.parse? (propertyType name j) text = some v ∧ IsReadAs name j v := by
  cases j with
  | string s =>
    obtain rfl := Option.some.inj htext
    exact exists_parse?_string name s
  | bool b =>
    obtain rfl := Option.some.inj htext
    refine ⟨.boolean b, ?_, .boolean b⟩
    cases b <;> rfl
  | number x =>
    cases x with
    | integer n =>
      obtain rfl := Option.some.inj htext
      have hleast : -2 ^ 63 ≤ n := Json.Raw.isRead_of_value? hraw
      obtain ⟨m, hm, hn⟩ := Integer.long?_render hleast (hfits n rfl)
      refine ⟨.long m, ?_, .long hn⟩
      rw [propertyType, Value.parse?, Json.compact, Json.Number.render, hm, Option.map_some]
    | double x =>
      obtain rfl := Option.some.inj htext
      have hnumber : x.isNaN = false := Json.Raw.isRead_of_value? hraw
      refine ⟨.double x, ?_, .double x⟩
      rw [propertyType, Value.parse?, Json.compact, Json.Number.render,
        Decimal.read?_render Json.doubleLayout hnumber, Option.map_some]
  | null | array | object => cases hscalar

/-! ## Members -/

section Member

open Import

variable {S : Supported} {i : Import} {node : String} {rest : List String}

theorem member_of_isScalar (hprincipals : name ≠ principalsMember) (haccess : name ≠ accessMember)
    (h : isScalar j = true) : member S name j = property name j := by
  rcases member_cases (S := S) (j := j) hprincipals haccess with ⟨children, rfl, -⟩ | ⟨-, hmember⟩
  · cases h
  · exact hmember

/-- A property that is set to a reference either is written or waits for a node. -/
theorem outcome_assign_reference (hnode : i.repository.hasNode node = true) (name text : String) :
    (outcome (assign node name .reference text) i).1 = .ok () := by
  rw [assign, if_pos rfl, outcome_bind]
  cases htarget : i.repository.node? (Path.resolve node text) with
  | some n =>
    have hlookUp : outcome (lookUp node name text) i = (.ok (.ok n.identifier), i) := by
      simp [lookUp, htarget]
    obtain ⟨k, hwrite, -⟩ := exists_outcome_write name hnode (.single (.reference n.identifier))
    rw [hlookUp]
    dsimp only
    rw [hwrite]
  | none => simp [lookUp, htarget]

theorem outcome_assign_of_parse? {type : ValueType} {v : Value}
    (hnode : i.repository.hasNode node = true) (htype : type ≠ .reference)
    (hname : name ≠ checkedOutName) (hv : Value.parse? type text = some v) :
    (outcome (assign node name type text) i).1 = .ok () ∧
      (outcome (assign node name type text) i).2.repository.property? node name =
        some (.single v) := by
  rw [assign, if_neg htype, if_neg hname, Value.parse_eq_ok_iff.2 hv]
  obtain ⟨k, hwrite, -, -, hproperty⟩ := exists_outcome_write name hnode (.single v)
  dsimp only
  rw [hwrite]
  exact ⟨rfl, hproperty⟩

theorem outcome_assign_of_parse?_eq_none {type : ValueType} (htype : type ≠ .reference)
    (hname : name ≠ checkedOutName) (hv : Value.parse? type text = none) :
    outcome (assign node name type text) i =
      (.error (.access (.invalidValue ⟨type, text⟩)), i) := by
  rw [assign, if_neg htype, if_neg hname, Value.parse, hv]
  rfl

theorem outcome_assign_checkedOut {type : ValueType} (htype : type ≠ .reference) :
    (outcome (assign node checkedOutName type text) i).1 = .ok () := by
  rw [assign, if_neg htype, if_pos rfl]
  split <;> rfl

theorem exists_run_of_isScalar (hprincipals : name ≠ principalsMember)
    (haccess : name ≠ accessMember) (hscalar : isScalar j = true)
    (hopened : i.opened = node :: rest)
    (hnew : i.repository.property? node (propertyName name) = none) :
    ∃ text i', scalarText? j = some text ∧ i'.repository = i.repository ∧
      outcome (run (member S name j)) i =
        outcome (assign node (propertyName name) (propertyType name j) text) i' := by
  obtain ⟨text, htext, hproperty⟩ := property_of_isScalar (j := j) hscalar
  refine ⟨text, { i with mentioned := including i.mentioned (propertyName name) }, htext, rfl, ?_⟩
  rw [member_of_isScalar hprincipals haccess hscalar, hproperty, run_call, perform,
    outcome_setProperty_of_new hopened hnew]

/-- A large integer is a double where it describes a principal or restricts an entry. -/
theorem ofNumber_large (hn : 2 ^ 63 ≤ n) :
    Value.ofNumber (.integer n) = .double (Json.Number.integer n).toDouble := by
  have hlong : (Json.Number.integer n).long? = none := if_neg (by omega)
  rw [Value.ofNumber, hlong]

/-- **What becomes of a scalar.** A member with a string, a truth value or a number of a JSON text
does not fail, unless it is an integer that is greater than every signed 64-bit integer. Then the
property has the value that the scalar is. A greater integer has the type of a long nevertheless, so
its member fails, while it is a double where it describes a principal or restricts an entry. -/
theorem outcome_member_scalar (hraw : raw.value? depth = some j) (hscalar : isScalar j = true)
    (hprincipals : name ≠ principalsMember) (haccess : name ≠ accessMember)
    (hopened : i.opened = node :: rest) (hnode : i.repository.hasNode node = true)
    (hnew : i.repository.property? node (propertyName name) = none) (S : Supported) :
    ((outcome (run (member S name j)) i).1 = .ok () ↔
        (∀ n, j = .ofInt n → n < 2 ^ 63) ∨ propertyName name = checkedOutName) ∧
      ((∀ n, j = .ofInt n → n < 2 ^ 63) → propertyName name ≠ checkedOutName →
        propertyType name j ≠ .reference →
          ∃ v, IsReadAs name j v ∧
            (outcome (run (member S name j)) i).2.repository.property? node (propertyName name) =
              some (.single v)) ∧
      ∀ n, j = .ofInt n → 2 ^ 63 ≤ n →
        (propertyName name ≠ checkedOutName →
          (outcome (run (member S name j)) i).1 =
            .error (.access (.invalidValue ⟨.long, Integer.render n⟩))) ∧
          extraValue? j = some (.double (Json.Number.integer n).toDouble) ∧
          ∀ type, restrictionValue type j =
            .ok (some (.double (Json.Number.integer n).toDouble)) := by
  obtain ⟨text, i', htext, hi', hrun⟩ :=
    exists_run_of_isScalar (S := S) hprincipals haccess hscalar hopened hnew
  have hnode' : i'.repository.hasNode node = true := hi' ▸ hnode
  have hlarge : ∀ n, j = .ofInt n → 2 ^ 63 ≤ n → propertyName name ≠ checkedOutName →
      (outcome (run (member S name j)) i).1 =
        .error (.access (.invalidValue ⟨.long, Integer.render n⟩)) := by
    rintro n rfl hn hplain
    obtain rfl : Integer.render n = text := Option.some.inj htext
    rw [hrun, Json.ofInt, propertyType,
      outcome_assign_of_parse?_eq_none (by decide) hplain (parse?_large hn)]
  have hvalue : (∀ n, j = .ofInt n → n < 2 ^ 63) →
      ∃ v, Value.parse? (propertyType name j) text = some v ∧ IsReadAs name j v :=
    fun hfits => exists_parse? hraw hscalar hfits htext
  refine ⟨⟨fun hok => ?_, ?_⟩, fun hfits hplain htype => ?_, fun n hn hn' => ?_⟩
  · by_contra hnot
    rw [not_or, not_forall] at hnot
    obtain ⟨⟨n, hn⟩, hplain⟩ := hnot
    obtain ⟨rfl, hn⟩ := Classical.not_imp.1 hn
    rw [hlarge n rfl (by omega) hplain] at hok
    cases hok
  · intro h
    rw [hrun]
    by_cases htype : propertyType name j = .reference
    · rw [htype]
      exact outcome_assign_reference hnode' _ _
    · by_cases hplain : propertyName name = checkedOutName
      · rw [hplain]
        exact outcome_assign_checkedOut htype
      · obtain ⟨v, hv, -⟩ := hvalue (h.resolve_right hplain)
        exact (outcome_assign_of_parse? hnode' htype hplain hv).1
  · obtain ⟨v, hv, hread⟩ := hvalue hfits
    rw [hrun]
    exact ⟨v, hread, (outcome_assign_of_parse? hnode' htype hplain hv).2⟩
  · subst hn
    have hdouble := ofNumber_large hn'
    exact ⟨hlarge n rfl hn', congrArg some hdouble, fun _ => congrArg (Except.ok ∘ some) hdouble⟩

/-- An import into the root of a new repository. -/
def emptyImport : Import := prepared {} 0 (.new .standard) "/" none

/-- The greatest signed 64-bit integer, as it is written. -/
def greatestLong : Json.NumberText := ⟨false, "9223372036854775807".toList, [], none⟩

theorem outcome_member_scalar_greatestLong :
    (Json.Raw.number greatestLong).value? 2 = some (.ofInt 9223372036854775807) ∧
      (outcome (run (member (supported []) "a" (.ofInt 9223372036854775807))) emptyImport).1 =
        .ok () := by
  have hraw : (Json.Raw.number greatestLong).value? 2 = some (.ofInt 9223372036854775807) := by
    decide +kernel
  have hopened : emptyImport.opened = "/" :: [] := by decide +kernel
  have hnode : emptyImport.repository.hasNode "/" = true := by decide +kernel
  have hnew : emptyImport.repository.property? "/" (propertyName "a") = none := by decide +kernel
  obtain ⟨hiff, -⟩ := outcome_member_scalar hraw rfl (by decide) (by decide) hopened hnode hnew
    (supported [])
  refine ⟨hraw, hiff.2 (.inl ?_)⟩
  rintro n hn
  cases hn
  decide

/-- **A document can fail because of an integer,** the one after the greatest signed 64-bit
integer. -/
theorem large_integer_fails :
    ¬ ∀ (text name : String) (j : Json), Json.parse? text = some j → isScalar j = true →
      name ∉ ignoredNames → name ≠ principalsMember → name ≠ accessMember →
      name ≠ checkedOutName →
        (outcome (run (member (supported []) name j)) emptyImport).1 = .ok () := by
  intro himports
  have hparse : Json.parse? "9223372036854775808" = some (.ofInt 9223372036854775808) := by
    decide +kernel
  have hok := himports _ "a" _ hparse rfl (by decide) (by decide) (by decide) (by decide)
  exact absurd hok (by decide +kernel)

end Member

end ContentImport.JsonReader
