import ContentImport.Proofs.Repository.Registry
import Mathlib.Data.List.Nodup
import Mathlib.Data.List.Perm.Subperm

/-!
# Definitions that give a registry

Definitions with distinct names give a registry if and only if every aggregate that they name is
defined, none of them leads back to itself, and the root is defined (`ofDefinitions_spec`).

* What is being built around a privilege are different defined names, so the bound on their number
  leaves room whatever is built (`IsRoomy.pos`). Any larger bound gives the same
  (`ofDefinitionsWithin_eq`).
* What is being built around a privilege leads to it, so a name that is met again inside of itself
  lies on a cycle (`isFault_of_build`).
* Whatever is built is as the definitions say (`isBuiltOf_buildAll`). Privileges are trees, and no
  tree contains itself, so no name leads back to itself then (`not_transGen_of_declares`).
-/

namespace ContentImport.Registry

open Privilege
open Relation (TransGen)

/-! ## Definitions -/

/-- A name has a definition. -/
def IsDefined (definitions : List PrivilegeDefinition) (n : String) : Prop :=
  ∃ d ∈ definitions, d.name = n

instance (definitions : List PrivilegeDefinition) (n : String) :
    Decidable (IsDefined definitions n) :=
  inferInstanceAs (Decidable (∃ d ∈ definitions, d.name = n))

/-- The definition of a name has another name for an aggregate. -/
def Aggregates (definitions : List PrivilegeDefinition) (n m : String) : Prop :=
  ∃ d ∈ definitions, d.name = n ∧ m ∈ d.aggregates

/-- Every aggregate is defined. -/
def IsComplete (definitions : List PrivilegeDefinition) : Prop :=
  ∀ n m, Aggregates definitions n m → IsDefined definitions m

/-- No name leads back to itself. -/
def IsAcyclic (definitions : List PrivilegeDefinition) : Prop :=
  ∀ n, ¬ TransGen (Aggregates definitions) n n

/-- What is wrong with definitions: an aggregate that is not defined, or a name that leads back to
itself. -/
inductive IsFault (definitions : List PrivilegeDefinition) : AccessError → Prop
  | unknown {n m : String} (h : Aggregates definitions n m) (hm : ¬ IsDefined definitions m) :
      IsFault definitions (.unknownAggregate n m)
  | cycle {n : String} (h : TransGen (Aggregates definitions) n n) :
      IsFault definitions (.privilegeCycle n)

theorem IsFault.not_complete_and_acyclic {definitions : List PrivilegeDefinition} {e : AccessError}
    (h : IsFault definitions e) : ¬ (IsComplete definitions ∧ IsAcyclic definitions) := by
  rintro ⟨hcomplete, hacyclic⟩
  cases h with
  | unknown h hm => exact hm (hcomplete _ _ h)
  | cycle h => exact hacyclic _ h

/-- A privilege is as a definition says: it has the name, and it declares privileges of the names of
the aggregates, in the same order. -/
structure IsOf (d : PrivilegeDefinition) (p : Privilege) : Prop where
  name : p.name = d.name
  isAbstract : p.isAbstract = d.isAbstract
  aggregates : p.aggregates.map Privilege.name = d.aggregates

/-- The definitions by name. -/
def index (definitions : List PrivilegeDefinition) : Definitions :=
  Table.ofList (definitions.map fun d => (d.name, d))

variable {definitions : List PrivilegeDefinition} {d : PrivilegeDefinition} {n m : String}
  {around : List String} {built built' : Table Privilege} {p : Privilege} {fuel : Nat}

theorem of_get?_index (h : (index definitions).get? n = some d) : d ∈ definitions ∧ d.name = n := by
  obtain ⟨e, he, heq⟩ := List.mem_map.1 (Table.mem_of_get?_ofList h)
  obtain ⟨rfl, rfl⟩ := Prod.mk.inj heq
  exact ⟨he, rfl⟩

theorem isDefined_iff : IsDefined definitions n ↔ ∃ d, (index definitions).get? n = some d := by
  constructor
  · rintro ⟨d, hd, rfl⟩
    exact Table.exists_get?_ofList (List.mem_map.2 ⟨d, hd, rfl⟩)
  · rintro ⟨d, hd⟩
    obtain ⟨hmem, hname⟩ := of_get?_index hd
    exact ⟨d, hmem, hname⟩

/-! ## The bound -/

/-- The privileges of definitions, of which at most so many are built around one another. -/
def buildAll (bound : Nat) (definitions : List PrivilegeDefinition) :
    Except AccessError (Table Privilege) :=
  definitions.foldlM (fun built d => do
    let (_, built) ← build (index definitions) bound [] built d
    return built) Table.empty

/-- The registry of definitions, of which at most so many are built around one another. -/
def ofDefinitionsWithin (bound : Nat) (root : String) (definitions : List PrivilegeDefinition) :
    Except AccessError Registry := do
  let built ← buildAll bound definitions
  match built.get? root with
  | none => .error (.privilegeNotFound root)
  | some p =>
    let rows := definitions.filterMap fun d => (built.get? d.name).map fun p => (d.name, p)
    return { privileges := Table.ofList rows, root := p }

theorem ofDefinitions_eq (root : String) (definitions : List PrivilegeDefinition) :
    ofDefinitions root definitions =
      ofDefinitionsWithin (definitions.length + 1) root definitions := rfl

/-- The bound leaves room for what is being built: different names, all of them defined. -/
structure IsRoomy (definitions : List PrivilegeDefinition) (fuel : Nat) (around : List String) :
    Prop where
  nodup : around.Nodup
  defined : ∀ n ∈ around, IsDefined definitions n
  fuel : definitions.length < fuel + around.length

theorem isRoomy_nil (h : definitions.length < fuel) : IsRoomy definitions fuel [] where
  nodup := List.nodup_nil
  defined := List.forall_mem_nil _
  fuel := h

/-- There are not more names than definitions. -/
theorem IsRoomy.pos (h : IsRoomy definitions fuel around) : 0 < fuel := by
  have hsub : around ⊆ definitions.map (·.name) := by
    intro n hn
    obtain ⟨d, hd, hname⟩ := h.defined n hn
    exact List.mem_map.2 ⟨d, hd, hname⟩
  have hlength := (h.nodup.subperm hsub).length_le
  have hfuel := h.fuel
  rw [List.length_map] at hlength
  omega

theorem IsRoomy.cons (h : IsRoomy definitions (fuel + 1) around) (hd : d ∈ definitions)
    (hnew : d.name ∉ around) : IsRoomy definitions fuel (d.name :: around) where
  nodup := List.nodup_cons.2 ⟨hnew, h.nodup⟩
  defined := List.forall_mem_cons.2 ⟨⟨d, hd, rfl⟩, h.defined⟩
  fuel := by
    have hfuel := h.fuel
    rw [List.length_cons]
    omega

theorem buildEach_congr (container : String) (names : List String)
    {f g : Table Privilege → PrivilegeDefinition → Except AccessError (Privilege × Table Privilege)}
    (h : ∀ n ∈ names, ∀ d, (index definitions).get? n = some d → ∀ built, f built d = g built d)
    (built : Table Privilege) :
    buildEach (index definitions) container f names built =
      buildEach (index definitions) container g names built := by
  induction names generalizing built with
  | nil => rfl
  | cons name r ih =>
    obtain ⟨hname, hr⟩ := List.forall_mem_cons.1 h
    rw [buildEach, buildEach]
    cases hd : (index definitions).get? name with
    | none => rfl
    | some d => simp only [hname d hd, ih hr]

/-- **What is built does not depend on a bound that leaves room.** -/
theorem build_eq_of_isRoomy {fuel' : Nat} (h : IsRoomy definitions fuel around)
    (h' : IsRoomy definitions fuel' around) (hd : d ∈ definitions) (built : Table Privilege) :
    build (index definitions) fuel around built d =
      build (index definitions) fuel' around built d := by
  induction fuel generalizing fuel' around d built with
  | zero => exact absurd h.pos (Nat.lt_irrefl 0)
  | succ fuel ih =>
    obtain ⟨fuel', rfl⟩ := Nat.exists_eq_succ_of_ne_zero (Nat.ne_of_gt h'.pos)
    rw [build, build]
    by_cases hnew : d.name ∈ around
    · simp only [if_pos hnew]
    · have hparts := buildEach_congr d.name d.aggregates
        (fun n _ e he => ih (h.cons hd hnew) (h'.cons hd hnew) (of_get?_index he).1) built
      simp only [if_neg hnew, hparts]

theorem buildAll_eq (h : definitions.length < fuel) :
    buildAll fuel definitions = buildAll (definitions.length + 1) definitions := by
  refine foldlM_congr (fun d hd built => ?_) _
  rw [build_eq_of_isRoomy (isRoomy_nil h) (isRoomy_nil (Nat.lt_succ_self _)) hd built]

/-- **The bound is never met.** -/
theorem ofDefinitionsWithin_eq (h : definitions.length < fuel) (root : String) :
    ofDefinitionsWithin fuel root definitions = ofDefinitions root definitions := by
  rw [ofDefinitions_eq, ofDefinitionsWithin, buildAll_eq h, ofDefinitionsWithin]

/-! ## Failures -/

section Each

variable {container : String} {names : List String} {P : Table Privilege → Prop}
  {build : Table Privilege → PrivilegeDefinition → Except AccessError (Privilege × Table Privilege)}

/-- What building one privilege keeps, building several keeps. -/
theorem buildEach_ok_induction {ps : List Privilege}
    (hbuild : ∀ n ∈ names, ∀ d, (index definitions).get? n = some d → ∀ built p built', P built →
      build built d = .ok (p, built') → P built' ∧ p.name = n)
    (hP : P built)
    (h : buildEach (index definitions) container build names built = .ok (ps, built')) :
    P built' ∧ ps.map Privilege.name = names := by
  induction names generalizing built ps with
  | nil =>
    cases h
    exact ⟨hP, rfl⟩
  | cons name r ih =>
    obtain ⟨hname, hr⟩ := List.forall_mem_cons.1 hbuild
    rw [buildEach] at h
    cases hd : (index definitions).get? name with
    | none => rw [hd] at h; cases h
    | some d =>
      rw [hd] at h
      obtain ⟨⟨p, b⟩, hp, h⟩ := andThen_eq_ok_iff.1 h
      obtain ⟨⟨ps', b'⟩, hps, h⟩ := andThen_eq_ok_iff.1 h
      obtain ⟨rfl, rfl⟩ := Prod.mk.inj (Except.ok.inj h)
      obtain ⟨hb, hpname⟩ := hname d hd _ _ _ hP hp
      obtain ⟨hb', hnames⟩ := ih hr hb hps
      exact ⟨hb', by rw [List.map_cons, hpname, hnames]⟩

/-- Building several privileges fails for one that is not defined, or since building one fails. -/
theorem buildEach_error_induction {e : AccessError}
    (hbuild : ∀ n ∈ names, ∀ d, (index definitions).get? n = some d → ∀ built p built', P built →
      build built d = .ok (p, built') → P built')
    (hP : P built) (h : buildEach (index definitions) container build names built = .error e) :
    ∃ n ∈ names, ((index definitions).get? n = none ∧ e = .unknownAggregate container n) ∨
      ∃ d b, (index definitions).get? n = some d ∧ P b ∧ build b d = .error e := by
  induction names generalizing built with
  | nil => cases h
  | cons name r ih =>
    obtain ⟨hname, hr⟩ := List.forall_mem_cons.1 hbuild
    rw [buildEach] at h
    cases hd : (index definitions).get? name with
    | none =>
      rw [hd] at h
      exact ⟨name, List.mem_cons_self, .inl ⟨hd, (Except.error.inj h).symm⟩⟩
    | some d =>
      rw [hd] at h
      rcases andThen_eq_error_iff.1 h with h | ⟨⟨p, b⟩, hp, h⟩
      · exact ⟨name, List.mem_cons_self, .inr ⟨d, built, hd, hP, h⟩⟩
      · rcases andThen_eq_error_iff.1 h with h | ⟨⟨ps, c⟩, -, h⟩
        · obtain ⟨n, hn, hfault⟩ := ih hr (hname d hd _ _ _ hP hp) h
          exact ⟨n, List.mem_cons_of_mem name hn, hfault⟩
        · cases h

end Each

/-- **Building fails for a fault of the definitions only.** -/
theorem isFault_of_build {e : AccessError} (hroomy : IsRoomy definitions fuel around)
    (hd : d ∈ definitions) (haround : ∀ n ∈ around, TransGen (Aggregates definitions) n d.name)
    (h : build (index definitions) fuel around built d = .error e) : IsFault definitions e := by
  induction fuel generalizing around d built with
  | zero => exact absurd hroomy.pos (Nat.lt_irrefl 0)
  | succ fuel ih =>
    rw [build] at h
    cases hbuilt : built.get? d.name with
    | some p => rw [hbuilt] at h; cases h
    | none =>
      rw [hbuilt] at h
      dsimp only at h
      split at h
      · next hmem =>
        obtain rfl := Except.error.inj h
        exact .cycle (haround d.name hmem)
      next hnew =>
      rcases andThen_eq_error_iff.1 h with h | ⟨⟨parts, b⟩, -, h⟩
      · obtain ⟨n, hn, ⟨hnone, rfl⟩ | ⟨part, b, hpart, -, h⟩⟩ :=
          buildEach_error_induction (P := fun _ => True) (fun _ _ _ _ _ _ _ _ _ => trivial)
            trivial h
        · refine .unknown ⟨d, hd, rfl, hn⟩ fun hdefined => ?_
          obtain ⟨part, hpart⟩ := isDefined_iff.1 hdefined
          rw [hnone] at hpart
          cases hpart
        · obtain ⟨hmem, rfl⟩ := of_get?_index hpart
          have hstep : Aggregates definitions d.name part.name := ⟨d, hd, rfl, hn⟩
          have haround' : ∀ n ∈ d.name :: around,
              TransGen (Aggregates definitions) n part.name :=
            List.forall_mem_cons.2 ⟨.single hstep, fun n hn => (haround n hn).tail hstep⟩
          exact ih (hroomy.cons hd hnew) hmem haround' h
      · cases h

theorem isFault_of_buildAll {e : AccessError} (hfuel : definitions.length < fuel)
    (h : buildAll fuel definitions = .error e) : IsFault definitions e := by
  obtain ⟨d, hd, built, h⟩ := exists_of_foldlM_eq_error h
  rcases andThen_eq_error_iff.1 h with h | ⟨⟨p, b⟩, -, h⟩
  · exact isFault_of_build (isRoomy_nil hfuel) hd (List.forall_mem_nil _) h
  · cases h

/-! ## What is built -/

/-- Every privilege is as a definition of its name says. -/
def IsFaithful (definitions : List PrivilegeDefinition) (built : Table Privilege) : Prop :=
  ∀ n p, built.get? n = some p → ∃ d ∈ definitions, d.name = n ∧ IsOf d p

theorem isFaithful_build (hb : IsFaithful definitions built) (hd : d ∈ definitions)
    (h : build (index definitions) fuel around built d = .ok (p, built')) :
    IsFaithful definitions built' ∧ p.name = d.name := by
  induction fuel generalizing around built d p built' with
  | zero => cases h
  | succ fuel ih =>
    rw [build] at h
    cases hbuilt : built.get? d.name with
    | some q =>
      rw [hbuilt] at h
      cases h
      obtain ⟨e, -, hname, hof⟩ := hb _ _ hbuilt
      exact ⟨hb, hof.name.trans hname⟩
    | none =>
      rw [hbuilt] at h
      dsimp only at h
      split at h
      · cases h
      obtain ⟨⟨parts, b⟩, hparts, h⟩ := andThen_eq_ok_iff.1 h
      obtain ⟨rfl, rfl⟩ := Prod.mk.inj (Except.ok.inj h)
      obtain ⟨hb', hnames⟩ := buildEach_ok_induction (P := IsFaithful definitions)
        (fun n _ e he _ _ _ hb h => by
          obtain ⟨hmem, rfl⟩ := of_get?_index he
          exact ih hb hmem h) hb hparts
      exact ⟨Table.forall_get?_insert hb' ⟨d, hd, rfl, rfl, rfl, hnames⟩, rfl⟩

section Declares

variable {R : String → String → Prop} (hR : ∀ n m, R n m →
  ∃ p q, built.get? n = some p ∧ p.Declares q ∧ built.get? m = some q)

include hR

theorem exists_contains_of_transGen (hnm : TransGen R n m) :
    ∃ p q, built.get? n = some p ∧ p.Contains q ∧ built.get? m = some q := by
  induction hnm with
  | single hnm =>
    obtain ⟨p, q, hp, hpq, hq⟩ := hR _ _ hnm
    exact ⟨p, q, hp, .single hpq, hq⟩
  | tail _ hlast ih =>
    obtain ⟨p, q, hp, hpq, hq⟩ := ih
    obtain ⟨q', s, hq', hqs, hs⟩ := hR _ _ hlast
    obtain rfl := Option.some.inj (hq.symm.trans hq')
    exact ⟨p, s, hp, hpq.tail hqs, hs⟩

/-- No privilege contains itself, and so no name leads back to itself. -/
theorem not_transGen_of_declares : ¬ TransGen R n n := by
  intro hnn
  obtain ⟨p, q, hp, hpq, hq⟩ := exists_contains_of_transGen hR hnn
  obtain rfl := Option.some.inj (hp.symm.trans hq)
  exact Nat.lt_irrefl _ (sizeOf_lt_of_contains hpq)

end Declares

/-- A closed table that has a privilege for each of the definitions, and no others. -/
structure IsBuiltOf (definitions : List PrivilegeDefinition) (built : Table Privilege) : Prop where
  closed : Closed built
  faithful : IsFaithful definitions built
  exists_get? : ∀ d ∈ definitions, ∃ p, built.get? d.name = some p

/-- **What is built of definitions is as they say.** -/
theorem isBuiltOf_buildAll (h : buildAll fuel definitions = .ok built) :
    IsBuiltOf definitions built := by
  have hempty : IsFaithful definitions Table.empty := by
    intro n p hp
    cases hp
  -- what is built for one definition after the other stays
  have hall : Closed built ∧ IsFaithful definitions built ∧
      ∀ d ∈ definitions, ∃ p, built.get? d.name = some p := by
    refine foldlM_ok_induction
      (P := fun done b => Closed b ∧ IsFaithful definitions b ∧
        ∀ d ∈ done, ∃ p, b.get? d.name = some p)
      (fun done d hd b b' hb hstep => ?_) ⟨closed_empty, hempty, List.forall_mem_nil _⟩ h
    obtain ⟨hclosed, hfaithful, hdone⟩ := hb
    obtain ⟨⟨p, c⟩, hp, hstep⟩ := andThen_eq_ok_iff.1 hstep
    obtain rfl := Except.ok.inj hstep
    obtain ⟨hsound, hextends, hget⟩ := build_eq_ok ⟨hclosed, List.forall_mem_nil _⟩ hp
    obtain ⟨hfaithful', hname⟩ := isFaithful_build hfaithful hd hp
    refine ⟨hsound.closed, hfaithful', List.forall_mem_append.2 ⟨fun e he => ?_, ?_⟩⟩
    · obtain ⟨q, hq⟩ := hdone e he
      exact ⟨q, hextends _ _ hq⟩
    · exact List.forall_mem_singleton.2 ⟨p, hname ▸ hget⟩
  exact ⟨hall.1, hall.2.1, hall.2.2⟩

namespace IsBuiltOf

theorem exists_iff (h : IsBuiltOf definitions built) :
    (∃ p, built.get? n = some p) ↔ IsDefined definitions n := by
  constructor
  · rintro ⟨p, hp⟩
    obtain ⟨d, hd, hname, -⟩ := h.faithful n p hp
    exact ⟨d, hd, hname⟩
  · rintro ⟨d, hd, rfl⟩
    exact h.exists_get? d hd

theorem exists_isOf_of_reaches (h : IsBuiltOf definitions built) {q : Privilege}
    (hp : built.get? p.name = some p) (hq : p.Reaches q) : ∃ d ∈ definitions, IsOf d q := by
  obtain ⟨d, hd, -, hof⟩ := h.faithful _ _ (h.closed.get?_of_reaches hp hq)
  exact ⟨d, hd, hof⟩

variable (h : IsBuiltOf definitions built) (hnames : (definitions.map (·.name)).Nodup)

include h hnames

theorem isOf (hd : d ∈ definitions) (hp : built.get? d.name = some p) : IsOf d p := by
  obtain ⟨e, he, hname, hof⟩ := h.faithful _ _ hp
  exact List.inj_on_of_nodup_map hnames he hd hname ▸ hof

theorem exists_declares (hnm : Aggregates definitions n m) :
    ∃ p q, built.get? n = some p ∧ p.Declares q ∧ built.get? m = some q := by
  obtain ⟨d, hd, rfl, hm⟩ := hnm
  obtain ⟨p, hp⟩ := h.exists_get? d hd
  rw [← (h.isOf hnames hd hp).aggregates] at hm
  obtain ⟨q, hq, rfl⟩ := List.mem_map.1 hm
  exact ⟨p, q, hp, hq, h.closed.declared _ _ hp q hq⟩

theorem isComplete : IsComplete definitions := by
  intro n m hnm
  obtain ⟨p, q, -, -, hq⟩ := h.exists_declares hnames hnm
  exact h.exists_iff.1 ⟨q, hq⟩

theorem isAcyclic : IsAcyclic definitions :=
  fun _ => not_transGen_of_declares fun _ _ hnm => h.exists_declares hnames hnm

end IsBuiltOf

/-! ## Registries -/

/-- The registry has what is built, and nothing else. -/
theorem exists_buildAll_of_ofDefinitions {root : String} {r : Registry}
    (h : ofDefinitions root definitions = .ok r) :
    ∃ built, buildAll (definitions.length + 1) definitions = .ok built ∧
      built.get? root = some r.root ∧ ∀ n, r.privileges.get? n = built.get? n := by
  rw [ofDefinitions_eq] at h
  obtain ⟨built, hbuilt, h⟩ := andThen_eq_ok_iff.1 h
  cases hroot : built.get? root with
  | none => rw [hroot] at h; cases h
  | some p =>
    rw [hroot] at h
    obtain rfl := Except.ok.inj h
    refine ⟨built, hbuilt, hroot, Table.get?_ofList_eq fun n q => ⟨fun hrow => ?_, fun hq => ?_⟩⟩
    · obtain ⟨d, -, hd⟩ := List.mem_filterMap.1 hrow
      obtain ⟨s, hs, hsq⟩ := Option.map_eq_some_iff.1 hd
      obtain ⟨rfl, rfl⟩ := Prod.mk.inj hsq
      exact hs
    · obtain ⟨d, hd, rfl, -⟩ := (isBuiltOf_buildAll hbuilt).faithful n q hq
      exact List.mem_filterMap.2 ⟨d, hd, by rw [hq]; rfl⟩

theorem exists_of_ofDefinitions {root : String} {r : Registry}
    (h : ofDefinitions root definitions = .ok r) :
    ∃ built, IsBuiltOf definitions built ∧ built.get? root = some r.root ∧
      ∀ n, r.privileges.get? n = built.get? n := by
  obtain ⟨built, hbuilt, hroot, hget⟩ := exists_buildAll_of_ofDefinitions h
  exact ⟨built, isBuiltOf_buildAll hbuilt, hroot, hget⟩

theorem exists_ok_iff (hnames : (definitions.map (·.name)).Nodup) (root : String) :
    (∃ r, ofDefinitions root definitions = .ok r) ↔
      IsComplete definitions ∧ IsAcyclic definitions ∧ IsDefined definitions root := by
  constructor
  · rintro ⟨r, hr⟩
    obtain ⟨built, hbuilt, hroot, -⟩ := exists_of_ofDefinitions hr
    exact ⟨hbuilt.isComplete hnames, hbuilt.isAcyclic hnames, hbuilt.exists_iff.1 ⟨_, hroot⟩⟩
  · rintro ⟨hcomplete, hacyclic, hroot⟩
    rw [ofDefinitions_eq, ofDefinitionsWithin]
    cases hall : buildAll (definitions.length + 1) definitions with
    | error e =>
      have hfault := isFault_of_buildAll (Nat.lt_succ_self _) hall
      exact absurd ⟨hcomplete, hacyclic⟩ hfault.not_complete_and_acyclic
    | ok built =>
      obtain ⟨p, hp⟩ := (isBuiltOf_buildAll hall).exists_iff.2 hroot
      exact ⟨_, by simp only [bind, Except.bind, hp]; rfl⟩

theorem isFault_or_of_error (hnames : (definitions.map (·.name)).Nodup) {root : String}
    {e : AccessError} (h : ofDefinitions root definitions = .error e) :
    IsFault definitions e ∨ e = .privilegeNotFound root ∧
      IsComplete definitions ∧ IsAcyclic definitions ∧ ¬ IsDefined definitions root := by
  rw [ofDefinitions_eq] at h
  rcases andThen_eq_error_iff.1 h with h | ⟨built, hbuilt, h⟩
  · exact .inl (isFault_of_buildAll (Nat.lt_succ_self _) h)
  · have hall := isBuiltOf_buildAll hbuilt
    cases hroot : built.get? root with
    | some p => rw [hroot] at h; cases h
    | none =>
      rw [hroot] at h
      refine .inr ⟨(Except.error.inj h).symm, hall.isComplete hnames, hall.isAcyclic hnames, ?_⟩
      intro hdefined
      obtain ⟨p, hp⟩ := hall.exists_iff.2 hdefined
      rw [hroot] at hp
      cases hp

/-- **Definitions with distinct names give a registry just if they are complete and acyclic and
define the root.** However many privileges may be built around one another, as long as it is more
than there are definitions, the outcome is the same. Every defined name leads to a privilege that is
as its definition says, and so is all that it contains. An error names a fault of the definitions,
or else the root, and then only the root is missing. -/
theorem ofDefinitions_spec {definitions : List PrivilegeDefinition}
    (hnames : (definitions.map (·.name)).Nodup) (root : String) :
    (∀ bound, definitions.length < bound →
      ofDefinitionsWithin bound root definitions = ofDefinitions root definitions) ∧
    ((∃ r, ofDefinitions root definitions = .ok r) ↔
      IsComplete definitions ∧ IsAcyclic definitions ∧ IsDefined definitions root) ∧
    (∀ r, ofDefinitions root definitions = .ok r → r.find root = .ok r.root ∧
      ∀ d ∈ definitions, ∃ p, r.find d.name = .ok p ∧ IsOf d p ∧
        ∀ q, p.Reaches q → ∃ e ∈ definitions, IsOf e q) ∧
    ∀ e, ofDefinitions root definitions = .error e →
      IsFault definitions e ∨ e = .privilegeNotFound root ∧
        IsComplete definitions ∧ IsAcyclic definitions ∧ ¬ IsDefined definitions root := by
  refine ⟨fun bound hbound => ofDefinitionsWithin_eq hbound root, exists_ok_iff hnames root, ?_,
    fun e he => isFault_or_of_error hnames he⟩
  intro r hr
  obtain ⟨built, hbuilt, hroot, hget⟩ := exists_of_ofDefinitions hr
  refine ⟨find_eq_ok_iff.2 ((hget root).trans hroot), fun d hd => ?_⟩
  obtain ⟨p, hp⟩ := hbuilt.exists_get? d hd
  have hof : IsOf d p := hbuilt.isOf hnames hd hp
  refine ⟨p, find_eq_ok_iff.2 ((hget d.name).trans hp), hof, fun q hq => ?_⟩
  exact hbuilt.exists_isOf_of_reaches (hof.name ▸ hp) hq

/-- Definitions that share a part, given before the parts. -/
def sharedDefinitions : List PrivilegeDefinition :=
  [ { name := "all", aggregates := ["write", "read"] },
    { name := "write", aggregates := ["read", "add"], isAbstract := true },
    { name := "add" }, { name := "read" } ]

theorem ofDefinitions_spec_shared :
    (sharedDefinitions.map (·.name)).Nodup ∧ (∃ r, ofDefinitions "all" sharedDefinitions = .ok r) ∧
      IsComplete sharedDefinitions ∧ IsAcyclic sharedDefinitions := by
  have hnames : (sharedDefinitions.map (·.name)).Nodup := by decide
  have hok : ∃ r, ofDefinitions "all" sharedDefinitions = .ok r := ⟨_, rfl⟩
  obtain ⟨hcomplete, hacyclic, -⟩ := (ofDefinitions_spec hnames "all").2.1.1 hok
  exact ⟨hnames, hok, hcomplete, hacyclic⟩

example : ofDefinitions "all" [{ name := "all", aggregates := ["read"] },
    { name := "read", aggregates := ["all"] }] = .error (.privilegeCycle "all") := rfl

end ContentImport.Registry
