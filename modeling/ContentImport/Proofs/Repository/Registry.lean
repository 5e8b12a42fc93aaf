import ContentImport.Proofs.Access.Hierarchy
import ContentImport.Proofs.Except
import ContentImport.Proofs.Table
import ContentImport.Repository.Registry

/-!
# Registered privileges

* A table of privileges is `Closed` if each stands under its name and everything that it declares
  is in the table as well. What stands in a closed table is a coherent hierarchy
  (`Closed.coherent`).
* Building a privilege extends a closed table by the privilege and by what it contains
  (`build_eq_ok`), so the registries that definitions give are parts of closed tables
  (`exists_closed_of_ofDefinitions`).
* In the registries that a repository can have, a privilege is found under its own name
  (`IsBuilt.name_eq`).
-/

namespace ContentImport.Registry

open Privilege

/-! ## Closed tables -/

/-- Every privilege stands under its name, and so does all that it declares. -/
structure Closed (built : Table Privilege) : Prop where
  name : ∀ n p, built.get? n = some p → p.name = n
  declared : ∀ n p, built.get? n = some p → ∀ q, p.Declares q → built.get? q.name = some q

/-- One table has all that another one has. -/
def Extends (built built' : Table Privilege) : Prop :=
  ∀ n p, built.get? n = some p → built'.get? n = some p

theorem Extends.refl (built : Table Privilege) : Extends built built := fun _ _ h => h

theorem Extends.trans {b₁ b₂ b₃ : Table Privilege} (h₁ : Extends b₁ b₂) (h₂ : Extends b₂ b₃) :
    Extends b₁ b₃ := fun n p h => h₂ n p (h₁ n p h)

theorem closed_empty : Closed Table.empty where
  name := by
    intro n p h
    cases h
  declared := by
    intro n p h
    cases h

variable {built built' : Table Privilege} {p q : Privilege}

theorem Closed.get?_of_reaches (h : Closed built) (hp : built.get? p.name = some p)
    (hpq : p.Reaches q) : built.get? q.name = some q := by
  induction hpq with
  | refl => exact hp
  | tail _ hq ih => exact h.declared _ _ ih _ hq

/-- **What stands in a closed table is a coherent hierarchy.** -/
theorem Closed.coherent (h : Closed built) {root : Privilege}
    (hroot : built.get? root.name = some root) : root.Coherent := by
  intro p q hp hq hname
  have hp' := h.get?_of_reaches hroot hp
  have hq' := h.get?_of_reaches hroot hq
  rw [hname, hq'] at hp'
  rw [Option.some.inj hp']

/-- A privilege all of whose parts are in a closed table can be added to it under a new name. -/
theorem Closed.insert (h : Closed built) (hnew : built.get? p.name = none)
    (hparts : ∀ q, p.Declares q → built.get? q.name = some q) :
    Closed (built.insert p.name p) ∧ Extends built (built.insert p.name p) := by
  have hext : Extends built (built.insert p.name p) := by
    intro n q hq
    rw [Table.get?_insert, if_neg, hq]
    rintro rfl
    rw [hnew] at hq
    cases hq
  refine ⟨⟨Table.forall_get?_insert h.name rfl, ?_⟩, hext⟩
  refine Table.forall_get?_insert (fun n q hq s hs => ?_) fun s hs => ?_
  · exact hext _ _ (h.declared n q hq s hs)
  · exact hext _ _ (hparts s hs)

/-! ## Building -/

/-- The table is closed and has none of the privileges that are being built. -/
structure Sound (around : List String) (built : Table Privilege) : Prop where
  closed : Closed built
  unbuilt : ∀ n ∈ around, built.get? n = none

variable {definitions : Definitions} {around : List String}

/-- Building several privileges extends a sound table by all of them, if building one does. -/
theorem buildEach_eq_ok {container : String}
    {build : Table Privilege → PrivilegeDefinition →
      Except AccessError (Privilege × Table Privilege)}
    (hbuild : ∀ built d p built', Sound around built → build built d = .ok (p, built') →
      Sound around built' ∧ Extends built built' ∧ built'.get? p.name = some p)
    {names : List String} {ps : List Privilege} (hs : Sound around built)
    (h : buildEach definitions container build names built = .ok (ps, built')) :
    Sound around built' ∧ Extends built built' ∧ ∀ p ∈ ps, built'.get? p.name = some p := by
  induction names generalizing built ps with
  | nil =>
    cases h
    exact ⟨hs, .refl _, by simp⟩
  | cons name r ih =>
    rw [buildEach] at h
    cases hd : definitions.get? name with
    | none => rw [hd] at h; cases h
    | some d =>
      rw [hd] at h
      obtain ⟨⟨p, b⟩, hp, h⟩ := andThen_eq_ok_iff.1 h
      obtain ⟨⟨ps', b'⟩, hr, h⟩ := andThen_eq_ok_iff.1 h
      obtain ⟨rfl, rfl⟩ := Prod.mk.inj (Except.ok.inj h)
      obtain ⟨hb, hext, hget⟩ := hbuild _ _ _ _ hs hp
      obtain ⟨hb', hext', hget'⟩ := ih hb hr
      exact ⟨hb', hext.trans hext', List.forall_mem_cons.2 ⟨hext' _ _ hget, hget'⟩⟩

/-- **Building a privilege extends a closed table** by the privilege and what it contains. -/
theorem build_eq_ok {fuel : Nat} {d : PrivilegeDefinition} (hs : Sound around built)
    (h : build definitions fuel around built d = .ok (p, built')) :
    Sound around built' ∧ Extends built built' ∧ built'.get? p.name = some p := by
  induction fuel generalizing around built d p built' with
  | zero => cases h
  | succ fuel ih =>
    rw [build] at h
    cases hd : built.get? d.name with
    | some q =>
      rw [hd] at h
      cases h
      refine ⟨hs, .refl _, ?_⟩
      rw [hs.closed.name _ _ hd, hd]
    | none =>
      rw [hd] at h
      simp only at h
      split at h
      · cases h
      next haround =>
      obtain ⟨⟨parts, b⟩, hparts, h⟩ := andThen_eq_ok_iff.1 h
      obtain ⟨rfl, rfl⟩ := Prod.mk.inj (Except.ok.inj h)
      have hs' : Sound (d.name :: around) built :=
        ⟨hs.closed, List.forall_mem_cons.2 ⟨hd, hs.unbuilt⟩⟩
      obtain ⟨hb, hext, hget⟩ := buildEach_eq_ok (fun _ _ _ _ => ih) hs' hparts
      -- the parts are built while `d` is being built, so its name is still free after them
      obtain ⟨hnew, hother⟩ := List.forall_mem_cons.1 hb.unbuilt
      obtain ⟨hclosed, hext'⟩ := hb.closed.insert (p := .mk d.name d.isAbstract parts) hnew hget
      refine ⟨⟨hclosed, fun n hn => ?_⟩, hext.trans hext', ?_⟩
      · rw [Table.get?_insert, if_neg, hother n hn]
        rintro rfl
        exact haround hn
      · exact (Table.get?_insert ..).trans (if_pos rfl)

/-- **The privileges of a registry that definitions give stand in a closed table**, and so does the
root. -/
theorem exists_closed_of_ofDefinitions {root : String} {definitions : List PrivilegeDefinition}
    {r : Registry} (h : ofDefinitions root definitions = .ok r) :
    ∃ built, Closed built ∧ built.get? r.root.name = some r.root ∧
      ∀ n p, r.privileges.get? n = some p → built.get? n = some p := by
  obtain ⟨built, hbuilt, h⟩ := andThen_eq_ok_iff.1 h
  have hclosed : Closed built := by
    refine foldlM_ok_induction (P := fun _ => Closed) (fun _ d _ b b' hb hd => ?_) closed_empty
      hbuilt
    obtain ⟨⟨p, c⟩, hp, hd⟩ := andThen_eq_ok_iff.1 hd
    obtain rfl := Except.ok.inj hd
    exact (build_eq_ok ⟨hb, by simp⟩ hp).1.closed
  cases hroot : built.get? root with
  | none => rw [hroot] at h; cases h
  | some p =>
    rw [hroot] at h
    cases h
    refine ⟨built, hclosed, ?_, fun n q hq => ?_⟩
    · rw [hclosed.name _ _ hroot, hroot]
    · obtain ⟨d, -, hd⟩ := List.mem_filterMap.1 (Table.mem_of_get?_ofList hq)
      obtain ⟨s, hs, hsq⟩ := Option.map_eq_some_iff.1 hd
      obtain ⟨rfl, rfl⟩ := Prod.mk.inj hsq
      exact hs

/-! ## Looking up -/

/-- The registries that a repository can have. -/
inductive IsBuilt : Registry → Prop
  | standard : IsBuilt standard
  | ofDefinitions {root : String} {definitions : List PrivilegeDefinition} {r : Registry}
      (h : ofDefinitions root definitions = .ok r) : IsBuilt r

theorem find_eq_ok_iff {r : Registry} {n : String} :
    r.find n = .ok p ↔ r.privileges.get? n = some p := by
  rw [find]
  cases r.privileges.get? n <;> simp

theorem find_eq_error_iff {r : Registry} {n : String} {e : AccessError} :
    r.find n = .error e ↔ r.privileges.get? n = none ∧ e = .privilegeNotFound n := by
  rw [find]
  cases r.privileges.get? n <;> simp [eq_comm]

theorem collect_eq (known : Table Privilege) (p : Privilege) :
    collect known p = if known.contains p.name then known
      else collectAll (known.insert p.name p) p.aggregates := by
  cases p
  rw [collect]
  rfl

/-- Collecting puts every privilege under its own name. -/
theorem name_eq_of_collectAll (l : List Privilege) {known : Table Privilege}
    (h : ∀ n p, known.get? n = some p → p.name = n) :
    ∀ n p, (collectAll known l).get? n = some p → p.name = n := by
  induction l using list_induction generalizing known with
  | nil => rwa [collectAll]
  | cons p r ihp ihr =>
    rw [collectAll, collect_eq]
    split
    · exact ihr h
    · exact ihr (ihp (Table.forall_get?_insert h rfl))

/-- **A privilege is found under its own name.** -/
theorem IsBuilt.name_eq {r : Registry} (h : r.IsBuilt) {n : String} (hp : r.find n = .ok p) :
    p.name = n := by
  rw [find_eq_ok_iff] at hp
  cases h with
  | standard =>
    refine name_eq_of_collectAll [standardHierarchy] closed_empty.name n p ?_
    rw [collectAll, collectAll]
    exact hp
  | ofDefinitions h =>
    obtain ⟨built, hbuilt, -, hget⟩ := exists_closed_of_ofDefinitions h
    exact hbuilt.name n p (hget n p hp)

end ContentImport.Registry
