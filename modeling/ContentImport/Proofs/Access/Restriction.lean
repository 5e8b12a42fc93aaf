import ContentImport.Access.Restriction
import ContentImport.Proofs.Except
import Mathlib.Data.List.Perm.Basic
import Mathlib.Data.List.Nodup

/-!
# Restrictions as a set

* The restrictions of a list are collected just if no name comes twice; otherwise the error is the
  name of the first one whose name has come before (`ofList_eq_error_iff`).
* A set holds the restrictions that it was collected from (`rows_perm_of_ofList`), in an order that
  they determine (`eq_iff_rows_perm`). So sets are compared as the lists are up to order
  (`ofList_eq_iff_perm`), and their values by type and content (`RestrictionValue.Same`).
-/

namespace ContentImport

/-! ## Values -/

/-- Two values have one type and the same content. Of doubles the bits are compared. -/
def Value.Same : Value → Value → Prop
  | .string s, .string t | .name s, .name t | .path s, .path t | .reference s, .reference t
  | .uri s, .uri t | .date s, .date t => s = t
  | .long m, .long n => m = n
  | .double x, .double y => x.bits = y.bits
  | .boolean b, .boolean c => b = c
  | .binary bytes, .binary more => bytes = more
  | _, _ => False

theorem Value.same_iff {v w : Value} : v.Same w ↔ v = w := by
  have hbits : ∀ x y : Binary64, x.bits = y.bits ↔ x = y := fun x y =>
    ⟨fun h => by cases x; cases y; exact congrArg Binary64.mk h, fun h => h ▸ rfl⟩
  cases v <;> cases w <;> simp [Value.Same, hbits]

/-- Two values of restrictions are both single or both lists, both missing or both there, and have
the same values in the same order. -/
def RestrictionValue.Same : RestrictionValue → RestrictionValue → Prop
  | .single none, .single none => True
  | .single (some v), .single (some w) => v.Same w
  | .multiple none, .multiple none => True
  | .multiple (some vs), .multiple (some ws) => List.Forall₂ Value.Same vs ws
  | _, _ => False

theorem RestrictionValue.same_iff {v w : RestrictionValue} : v.Same w ↔ v = w := by
  have hlists : ∀ vs ws : List Value, List.Forall₂ Value.Same vs ws ↔ vs = ws := by
    intro vs ws
    have heq : Value.Same = Eq := by
      funext v w
      exact propext Value.same_iff
    rw [heq, List.forall₂_eq_eq_eq]
  rcases v with (_ | v) | (_ | vs) <;> rcases w with (_ | w) | (_ | ws) <;>
    simp [RestrictionValue.Same, Value.same_iff, hlists]

/-! ## Collecting -/

/-- The row of a restriction in a set. -/
def Restriction.row (r : Restriction) : String × RestrictionValue := (r.name, r.value)

theorem Restriction.row_injective : Function.Injective Restriction.row := by
  rintro ⟨name, value⟩ ⟨name', value'⟩ h
  obtain ⟨rfl, rfl⟩ := Prod.mk.inj h
  rfl

theorem Restriction.map_fst_row (restrictions : List Restriction) :
    (restrictions.map row).map Prod.fst = restrictions.map name := List.map_map

/-- A name is that of the first restriction whose name has come before. -/
def IsFirstRepeated (name : String) (restrictions : List Restriction) : Prop :=
  ∃ before r after, restrictions = before ++ r :: after ∧ r.name = name ∧
    (before.map Restriction.name).Nodup ∧ name ∈ before.map Restriction.name

namespace RestrictionSet

variable {s t : RestrictionSet} {r : Restriction} {name : String} {xs ys : List Restriction}

theorem place_perm (name : String) (value : RestrictionValue)
    (rows : List (String × RestrictionValue)) :
    (place name value rows).Perm ((name, value) :: rows) := by
  induction rows with
  | nil => exact List.Perm.refl _
  | cons row rows ih =>
    unfold place
    split
    · exact List.Perm.refl _
    · exact (ih.cons row).trans (List.Perm.swap _ _ _)

theorem contains_iff : s.contains name = true ↔ name ∈ s.rows.map (·.1) := by
  simp [contains, List.any_eq_true]

theorem nodup_names (s : RestrictionSet) : (s.rows.map (·.1)).Nodup := by
  refine s.sorted.imp ?_
  rintro a _ hlt rfl
  exact String.lt_irrefl a hlt

theorem rows_insert (h : s.insert r = .ok t) : t.rows.Perm (s.rows ++ [r.row]) := by
  unfold insert at h
  split at h
  · cases h
  · obtain rfl := Except.ok.inj h
    exact (place_perm _ _ _).trans (List.perm_append_singleton _ _).symm

theorem insert_eq_error_iff :
    s.insert r = .error name ↔ r.name = name ∧ name ∈ s.rows.map (·.1) := by
  unfold insert
  split
  · next h =>
    rw [contains_iff] at h
    constructor
    · intro herror
      obtain rfl := Except.error.inj herror
      exact ⟨rfl, h⟩
    · rintro ⟨rfl, -⟩
      rfl
  · next h =>
    refine ⟨(fun hok => nomatch hok), ?_⟩
    rintro ⟨rfl, hmem⟩
    exact absurd (contains_iff.2 hmem) h

/-- While restrictions are collected, the set has the rows of those so far. -/
theorem ofList_cases (xs : List Restriction) :
    (∀ s, ofList xs = .ok s → s.rows.Perm (xs.map Restriction.row)) ∧
      ∀ name, ofList xs = .error name → IsFirstRepeated name xs := by
  obtain ⟨hok, herror⟩ := foldlM_induction (f := insert) (l := xs)
    (P := fun before s => s.rows.Perm (before.map Restriction.row))
    (fun before r after _ s t hs hinsert => by
      rw [List.map_append, List.map_singleton]
      exact (rows_insert hinsert).trans (hs.append_right _))
    (b := empty) (List.Perm.refl _)
  refine ⟨hok, fun name h => ?_⟩
  obtain ⟨before, r, after, s, hxs, hs, hinsert⟩ := herror name h
  obtain ⟨hname, hmem⟩ := insert_eq_error_iff.1 hinsert
  have hnames : (s.rows.map (·.1)).Perm (before.map Restriction.name) := by
    rw [← Restriction.map_fst_row]
    exact hs.map Prod.fst
  exact ⟨before, r, after, hxs, hname, hnames.nodup_iff.1 s.nodup_names, hnames.mem_iff.1 hmem⟩

/-- **A set holds what it was collected from.** -/
theorem rows_perm_of_ofList (h : ofList xs = .ok s) : s.rows.Perm (xs.map Restriction.row) :=
  (ofList_cases xs).1 s h

theorem names_perm_of_ofList (h : ofList xs = .ok s) :
    (s.rows.map (·.1)).Perm (xs.map Restriction.name) := by
  rw [← Restriction.map_fst_row]
  exact (rows_perm_of_ofList h).map Prod.fst

theorem exists_ofList_iff : (∃ s, ofList xs = .ok s) ↔ (xs.map Restriction.name).Nodup := by
  constructor
  · rintro ⟨s, hs⟩
    exact (names_perm_of_ofList hs).nodup_iff.1 s.nodup_names
  · intro hnodup
    rcases h : ofList xs with name | s
    · obtain ⟨before, r, after, rfl, rfl, -, hmem⟩ := (ofList_cases xs).2 name h
      rw [List.map_append, List.map_cons, List.nodup_append] at hnodup
      exact absurd rfl (hnodup.2.2 _ hmem _ List.mem_cons_self)
    · exact ⟨s, rfl⟩

/-- **Collecting fails with the first name that comes again.** -/
theorem ofList_eq_error_iff : ofList xs = .error name ↔ IsFirstRepeated name xs := by
  refine ⟨(ofList_cases xs).2 name, ?_⟩
  rintro ⟨before, r, after, rfl, hname, hnodup, hmem⟩
  obtain ⟨s, hs⟩ := exists_ofList_iff.2 hnodup
  have hinsert : s.insert r = .error name :=
    insert_eq_error_iff.2 ⟨hname, (names_perm_of_ofList hs).mem_iff.2 hmem⟩
  have hfold : before.foldlM insert empty = .ok s := hs
  rw [ofList, List.foldlM_append, hfold]
  change (r :: after).foldlM insert s = .error name
  rw [List.foldlM_cons, hinsert]
  rfl

/-! ## Comparing -/

/-- **The rows of a set are in an order that they determine.** -/
theorem eq_iff_rows_perm : s = t ↔ s.rows.Perm t.rows := by
  refine ⟨fun h => h ▸ List.Perm.refl _, fun h => ?_⟩
  have hrows : s.rows = t.rows := by
    refine h.eq_of_pairwise (fun a b _ _ hab hba => ?_) (List.pairwise_map.1 s.sorted)
      (List.pairwise_map.1 t.sorted)
    exact absurd hba (String.lt_asymm hab)
  cases s
  cases t
  cases hrows
  rfl

/-- **Sets are compared as sets.** Restrictions cannot be collected just if some name comes twice,
and the error is the first name to come again. Two sets are equal just if the one list permutes the
other; values are equal just if they have the same type and content. -/
theorem ofList_eq_iff_perm (xs ys : List Restriction) :
    ((∃ name, ofList xs = .error name) ↔ ∃ name, 1 < (xs.map Restriction.name).count name) ∧
    (∀ name, ofList xs = .error name ↔ IsFirstRepeated name xs) ∧
    (∀ s t, ofList xs = .ok s → ofList ys = .ok t → (s = t ↔ xs.Perm ys)) ∧
    ∀ v w : RestrictionValue, v = w ↔ v.Same w := by
  refine ⟨?_, fun name => ofList_eq_error_iff, fun s t hs ht => ?_,
    fun v w => RestrictionValue.same_iff.symm⟩
  · have hfails : (∃ name, ofList xs = .error name) ↔ ¬ ∃ s, ofList xs = .ok s := by
      cases ofList xs <;> simp
    have htwice : (∃ name, 1 < (xs.map Restriction.name).count name) ↔
        ¬ (xs.map Restriction.name).Nodup := by
      simp only [List.nodup_iff_count_le_one, not_forall, Nat.not_le]
    rw [hfails, htwice, exists_ofList_iff]
  · calc s = t ↔ s.rows.Perm t.rows := eq_iff_rows_perm
      _ ↔ (xs.map Restriction.row).Perm (ys.map Restriction.row) :=
        (rows_perm_of_ofList hs).congr_left t.rows |>.trans
          ((rows_perm_of_ofList ht).congr_right _)
      _ ↔ xs.Perm ys := List.map_perm_map_iff Restriction.row_injective

/-- A pattern and a list of names make up one set in either order, but another one if the pattern
is missing. -/
theorem ofList_eq_iff_perm_swapped :
    ∃ s t u,
      ofList [⟨"rep:glob", .single (some (.string "/x"))⟩,
        ⟨"rep:itemNames", .multiple (some [.name "a"])⟩] = .ok s ∧
      ofList [⟨"rep:itemNames", .multiple (some [.name "a"])⟩,
        ⟨"rep:glob", .single (some (.string "/x"))⟩] = .ok t ∧
      ofList [⟨"rep:itemNames", .multiple (some [.name "a"])⟩, ⟨"rep:glob", .single none⟩] = .ok u ∧
      s = t ∧ t ≠ u := by
  obtain ⟨s, hs⟩ := exists_ofList_iff.2 (show ([⟨"rep:glob", .single (some (.string "/x"))⟩,
    ⟨"rep:itemNames", .multiple (some [.name "a"])⟩].map Restriction.name).Nodup by decide)
  obtain ⟨t, ht⟩ := exists_ofList_iff.2
    (show ([⟨"rep:itemNames", .multiple (some [.name "a"])⟩,
      ⟨"rep:glob", .single (some (.string "/x"))⟩].map Restriction.name).Nodup by decide)
  obtain ⟨u, hu⟩ := exists_ofList_iff.2
    (show ([⟨"rep:itemNames", .multiple (some [.name "a"])⟩,
      ⟨"rep:glob", .single none⟩].map Restriction.name).Nodup by decide)
  refine ⟨s, t, u, hs, ht, hu, ?_, fun heq => ?_⟩
  · exact ((ofList_eq_iff_perm _ _).2.2.1 s t hs ht).2 (List.Perm.swap ..)
  · have hperm := ((ofList_eq_iff_perm _ _).2.2.1 t u ht hu).1 heq
    have hmem := hperm.mem_iff.1 (List.mem_cons_of_mem _ List.mem_cons_self)
    simp at hmem

end RestrictionSet

end ContentImport
