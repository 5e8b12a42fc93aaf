import ContentImport.Proofs.Access.Grant
import ContentImport.Proofs.Except
import ContentImport.Proofs.Outcome
import ContentImport.Import.Basic
import ContentImport.Reader.Json

/-!
# Two forms of an entry

An entry of a JSON document lists the privileges that it allows and denies under shared restrictions
(`listing`), or describes each privilege with restrictions of its own (`describing`).

* Where the restrictions are the same, both forms are read as the same grants, which are those of
  the two lists (`grants_listing`, `grants_describing`), and so as the same call
  (`entriesCall_of_lists`).
* A value of a restriction can stand alone or as the only item of an array
  (`restrictions_of_wraps`).
-/

namespace ContentImport.JsonReader

open ContentImport.Composition (distinct mem_distinct)

variable {S : Supported} {R R' : Json.Members} {restricted : RestrictionSet} {name : String}

/-! ## Values of restrictions -/

/-- Whether a value is an array. -/
def isArray : Json → Bool
  | .array _ => true
  | _ => false

/-- The members of an object, some of their values that are no arrays being made arrays of one
item. -/
def Wraps (R R' : Json.Members) : Prop :=
  List.Forall₂ (fun m m' => m'.1 = m.1 ∧ (m'.2 = m.2 ∨ isArray m.2 = false ∧ m'.2 = .array [m.2]))
    R R'

theorem restriction_array (S : Supported) (name : String) {j : Json} (hj : isArray j = false) :
    restriction S name (.array [j]) = restriction S name j := by
  unfold restriction
  cases S.get? name with
  | none => rfl
  | some d =>
    cases j with
    | array items => cases hj
    | _ => rfl

theorem restrictions_of_wraps (S : Supported) (h : Wraps R R') :
    restrictions S R' = restrictions S R := by
  have hmember : (R'.mapM fun m => restriction S m.1 m.2) =
      R.mapM fun m => restriction S m.1 m.2 := by
    induction h with
    | nil => rfl
    | @cons m m' R R' hm _ ih =>
      obtain ⟨name, j⟩ := m
      obtain ⟨name', j'⟩ := m'
      have hj : restriction S name' j' = restriction S name j := by
        obtain ⟨hname, hvalue | ⟨harray, hvalue⟩⟩ := hm
        · rw [show name' = name from hname, show j' = j from hvalue]
        · rw [show name' = name from hname, show j' = .array [j] from hvalue]
          exact restriction_array S name harray
      rw [List.mapM_cons, List.mapM_cons, hj, ih]
  rw [restrictions, restrictions, hmember]

/-! ## The two forms -/

/-- A member that may be missing. -/
def optionalMember (name : String) (j : Option Json) : Json.Members := (j.map (name, ·)).toList

/-- The members of an entry that tell its principal and its order. -/
def heading (principal : String) (order : Option Json) : Json.Members :=
  ("principal", .string principal) :: optionalMember "order" order

/-- An entry that lists its privileges under shared restrictions. -/
def listing (principal : String) (order : Option Json) (granted denied : List String)
    (R : Json.Members) : Json.Members :=
  heading principal order ++
    [ ("granted", .ofStrings granted), ("denied", .ofStrings denied), ("restrictions", .object R) ]

/-- The sides of a privilege that two lists mention. -/
def sidesMember (granted denied : List String) (R : Json.Members) (name : String) : Json :=
  .object
    (optionalMember "allow" (if name ∈ granted then some (.object R) else none) ++
      optionalMember "deny" (if name ∈ denied then some (.object R) else none))

/-- An entry that describes each of its privileges, in the order of first mention by two lists. -/
def describing (principal : String) (order : Option Json) (granted denied : List String)
    (R : Json.Members) : Json.Members :=
  heading principal order ++
    [ ("privileges", .object ((distinct (granted ++ denied)).map fun name =>
        (name, sidesMember granted denied R name))) ]

/-- The value of the member that gives an order, in either form. -/
def orderOf (order : Option Json) : Except ImportError (Option String) :=
  JsonReader.order (optionalMember "order" order)

variable (principal : String) (order : Option Json) (granted denied : List String)

/-! ## What they are read as -/

theorem strings_ofStrings (field : String) (texts : List String) :
    strings field (.ofStrings texts) = .ok texts := by
  refine mapM_eq_ok_iff.2 ?_
  rw [List.forall₂_map_left_iff]
  exact List.forall₂_same.2 fun _ _ => rfl

theorem get?_heading_append {name : String} (hprincipal : name ≠ "principal")
    (horder : name ≠ "order") (rest : Json.Members) :
    Json.Members.get? (heading principal order ++ rest) name = rest.get? name := by
  cases order <;>
    simp [heading, optionalMember, Table.lookup, hprincipal.symm, horder.symm]

theorem listedGrants_listing (hR : restrictions S R = .ok restricted) :
    listedGrants S (listing principal order granted denied R) =
      .ok (denied.foldl (fun gs name => Grants.deny gs name restricted)
        (granted.foldl (fun gs name => Grants.allow gs name restricted) Table.empty)) := by
  have hgranted : present? (listing principal order granted denied R) "granted" =
      some (.ofStrings granted) := by
    rw [present?, listing, get?_heading_append _ _ (by decide) (by decide)]
    rfl
  have hdenied : present? (listing principal order granted denied R) "denied" =
      some (.ofStrings denied) := by
    rw [present?, listing, get?_heading_append _ _ (by decide) (by decide)]
    rfl
  have hshared : Json.Members.get? (listing principal order granted denied R) "restrictions" =
      some (.object R) := by
    rw [listing, get?_heading_append _ _ (by decide) (by decide)]
    rfl
  rw [listedGrants, hgranted, hdenied, hshared]
  simp only [names, strings_ofStrings, hR]
  rfl

theorem grants_listing (hR : restrictions S R = .ok restricted) :
    (grants S (listing principal order granted denied R)).map Table.values =
      .ok (Grants.shared restricted granted denied) := by
  have hprivileges : Json.Members.get? (listing principal order granted denied R) "privileges" =
      none := by
    rw [listing, get?_heading_append _ _ (by decide) (by decide)]
    rfl
  rw [grants, listedGrants_listing principal order granted denied hR, hprivileges,
    ← Grants.values_foldl_deny_foldl_allow]
  rfl

theorem get?_allow (allow deny : Option Json) :
    Json.Members.get? (optionalMember "allow" allow ++ optionalMember "deny" deny) "allow" =
      allow := by
  cases allow <;> cases deny <;> rfl

theorem get?_deny (allow deny : Option Json) :
    Json.Members.get? (optionalMember "allow" allow ++ optionalMember "deny" deny) "deny" =
      deny := by
  cases allow <;> cases deny <;> rfl

theorem side_ite (hR : restrictions S R = .ok restricted) (p : Prop) [Decidable p] :
    side S (if p then some (.object R) else none) = .ok (if p then some restricted else none) := by
  split
  · rw [side, hR]
    rfl
  · rfl

/-- What a member that describes a privilege adds to the grants. -/
theorem addPrivilege_sidesMember (hR : restrictions S R = .ok restricted) (gs : Grants)
    (hname : name ∈ granted ++ denied) :
    addPrivilege S gs (name, sidesMember granted denied R name) =
      .ok (Grants.update (Grants.withSides restricted granted denied) gs name) := by
  have hsides : addPrivilege S gs (name, sidesMember granted denied R name) =
      .ok (withSide Grants.deny
        (withSide Grants.allow gs name (if name ∈ granted then some restricted else none)) name
        (if name ∈ denied then some restricted else none)) := by
    rw [addPrivilege, sidesMember]
    dsimp only
    rw [get?_allow, get?_deny, side_ite hR, side_ite hR]
    rfl
  rw [hsides, Grants.update, Grants.withSides]
  by_cases hgranted : name ∈ granted
  · by_cases hdenied : name ∈ denied
    · simp only [if_pos hgranted, if_pos hdenied, withSide, Grants.allow, Grants.deny, Grants.entry,
        Table.insert_insert, Table.get?_insert, if_true, Option.getD_some]
    · simp only [if_pos hgranted, if_neg hdenied, withSide, Grants.allow, Grants.entry]
  · have hdenied : name ∈ denied := (List.mem_append.1 hname).resolve_left hgranted
    simp only [if_neg hgranted, if_pos hdenied, withSide, Grants.deny, Grants.entry]

theorem grants_describing (hR : restrictions S R = .ok restricted) :
    (grants S (describing principal order granted denied R)).map Table.values =
      .ok (Grants.shared restricted granted denied) := by
  have hlisted : listedGrants S (describing principal order granted denied R) =
      .ok Table.empty := by
    rw [listedGrants, present?, present?, describing,
      get?_heading_append _ _ (by decide) (by decide),
      get?_heading_append _ _ (by decide) (by decide)]
    rfl
  have hprivileges : Json.Members.get? (describing principal order granted denied R) "privileges" =
      some (.object ((distinct (granted ++ denied)).map fun name =>
        (name, sidesMember granted denied R name))) := by
    rw [describing, get?_heading_append _ _ (by decide) (by decide)]
    rfl
  have hfold : ∀ (names : List String) (gs : Grants), (∀ name ∈ names, name ∈ granted ++ denied) →
      (names.map fun name => (name, sidesMember granted denied R name)).foldlM
        (addPrivilege S) gs =
      .ok (names.foldl (Grants.update (Grants.withSides restricted granted denied)) gs) := by
    intro names
    induction names with
    | nil => exact fun _ _ => rfl
    | cons name names ih =>
      intro gs hnames
      obtain ⟨hname, hnames⟩ := List.forall_mem_cons.1 hnames
      rw [List.map_cons, List.foldlM_cons, addPrivilege_sidesMember granted denied hR gs hname]
      exact ih _ hnames
  have hall := hfold (distinct (granted ++ denied)) Table.empty fun name => mem_distinct.1
  rw [grants, hlisted, hprivileges]
  change ((List.foldlM (addPrivilege S) Table.empty _).map Table.values) = _
  rw [hall, ← Grants.values_foldl_withSides]
  rfl

/-! ## The same call -/

theorem order_heading_append {rest : Json.Members} (hrest : rest.get? "order" = none) :
    JsonReader.order (heading principal order ++ rest) = orderOf order := by
  have horder : Json.Members.get? (heading principal order ++ rest) "order" =
      Json.Members.get? (optionalMember "order" order) "order" := by
    cases order with
    | none => exact hrest
    | some j => rfl
  rw [orderOf, JsonReader.order, horder, JsonReader.order]

theorem entriesCall_of_grants {rest : Json.Members} (hrest : rest.get? "order" = none)
    {gs : List Grant}
    (hgrants : (grants S (heading principal order ++ rest)).map Table.values = .ok gs) :
    entriesCall S (heading principal order ++ rest) =
      (orderOf order).map fun directive => .setEntries principal gs directive := by
  have hprincipal : Json.Members.get? (heading principal order ++ rest) "principal" =
      some (.string principal) := rfl
  rw [entriesCall, hprincipal, order_heading_append principal order hrest]
  rcases hgs : grants S (heading principal order ++ rest) with e | t
  · rw [hgs] at hgrants
    cases hgrants
  · rw [hgs] at hgrants
    obtain rfl := Except.ok.inj hgrants
    cases orderOf order <;> rfl

theorem member_accessMember (members : Json.Members) :
    member S accessMember (.object members) = entries S members := by
  rw [member, if_neg (by decide), if_pos rfl, accessList]

/-- An entry that lists privileges, and one that describes the same privileges under the same
restrictions, are read as one call. Its grants are those of the two lists in the order of first
mention, each allowed or denied or both. -/
theorem entriesCall_of_lists (hR : restrictions S R = .ok restricted) :
    entriesCall S (listing principal order granted denied R) =
        ((orderOf order).map fun directive =>
          .setEntries principal (Grants.shared restricted granted denied) directive) ∧
      entriesCall S (describing principal order granted denied R) =
        ((orderOf order).map fun directive =>
          .setEntries principal (Grants.shared restricted granted denied) directive) :=
  ⟨entriesCall_of_grants principal order rfl (grants_listing principal order granted denied hR),
    entriesCall_of_grants principal order rfl (grants_describing principal order granted denied hR)⟩

/-- **Both forms of an entry mean the same.** Whatever lists of privileges and whatever accepted
restrictions they are given, they are read as the same call with the grants of the two lists, also
if values of the restrictions are put into arrays, and so they change every import alike. -/
theorem forms_agree (definitions : List RestrictionDefinition) (principal : String)
    (order : Option Json) (granted denied : List String) {R : Json.Members}
    {restricted : RestrictionSet} (hR : restrictions (supported definitions) R = .ok restricted) :
    let call := (orderOf order).map fun directive =>
      Call.setEntries principal (Grants.shared restricted granted denied) directive
    entriesCall (supported definitions) (listing principal order granted denied R) = call ∧
      entriesCall (supported definitions) (describing principal order granted denied R) = call ∧
      (∀ R', Wraps R R' →
        entriesCall (supported definitions) (listing principal order granted denied R') = call ∧
        entriesCall (supported definitions) (describing principal order granted denied R') = call) ∧
      ∀ i : Import,
        outcome (Import.run (member (supported definitions) accessMember
            (.object (describing principal order granted denied R)))) i =
          outcome (Import.run (member (supported definitions) accessMember
            (.object (listing principal order granted denied R)))) i := by
  intro call
  obtain ⟨hlisting, hdescribing⟩ := entriesCall_of_lists principal order granted denied hR
  refine ⟨hlisting, hdescribing, fun R' hwraps => ?_, fun i => ?_⟩
  · have hR' := (restrictions_of_wraps (supported definitions) hwraps).trans hR
    exact entriesCall_of_lists principal order granted denied hR'
  · rw [member_accessMember, member_accessMember, entries, entries, hlisting, hdescribing]

/-- Restrictions with one value each. -/
def plainRestrictions : Json.Members :=
  [("rep:ntNames", .string "nt:file"), ("rep:glob", .string "/*")]

/-- The same restrictions, one of the values in an array. -/
def wrappedRestrictions : Json.Members :=
  [("rep:ntNames", .array [.string "nt:file"]), ("rep:glob", .string "/*")]

/-- What the restrictions are read as. -/
def fileRestrictions : RestrictionSet where
  rows := [("rep:glob", .single (some (.string "/*"))),
    ("rep:ntNames", .multiple (some [.name "nt:file"]))]

/-- Lists that repeat a name and overlap. -/
theorem forms_agree_overlapping :
    restrictions (supported Repository.standardRestrictions) plainRestrictions =
        .ok fileRestrictions ∧
      Wraps plainRestrictions wrappedRestrictions ∧
      entriesCall (supported Repository.standardRestrictions)
          (describing "everyone" (some (.number (.integer 0)))
            ["jcr:read", "rep:write", "jcr:read"] ["jcr:all", "rep:write"] wrappedRestrictions) =
        .ok (.setEntries "everyone"
          [ { name := "jcr:read", allow := some fileRestrictions },
            { name := "rep:write", allow := some fileRestrictions, deny := some fileRestrictions },
            { name := "jcr:all", deny := some fileRestrictions } ] (some "0")) := by
  have hR : restrictions (supported Repository.standardRestrictions) plainRestrictions =
      .ok fileRestrictions := by rfl
  have hwraps : Wraps plainRestrictions wrappedRestrictions :=
    .cons ⟨rfl, .inr ⟨rfl, rfl⟩⟩ (.cons ⟨rfl, .inl rfl⟩ .nil)
  refine ⟨hR, hwraps, ?_⟩
  exact ((forms_agree Repository.standardRestrictions "everyone" (some (.number (.integer 0)))
    ["jcr:read", "rep:write", "jcr:read"] ["jcr:all", "rep:write"] hR).2.2.1 _ hwraps).2

end ContentImport.JsonReader
