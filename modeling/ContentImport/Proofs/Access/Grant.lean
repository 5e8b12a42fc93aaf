import ContentImport.Access.Grant
import ContentImport.Proofs.Access.Sorted
import ContentImport.Proofs.Table

/-!
# Collected grants

Grants are collected by privilege name, one mention after the other. What a later mention adds
depends on what was said of that name before, and on nothing else.

* `update` is one such mention. After several of them the names stand in the order in which they
  were first mentioned (`keys_foldl_update`), and if it makes no difference to mention a name twice,
  each holds what one mention makes of it (`get?_foldl_update`).
* `shared` are the grants of two lists of names, allowed and denied under the same restrictions.
  Allowing the one list and then denying the other leads to them
  (`values_foldl_deny_foldl_allow`), and so does saying of each name at once whether it is allowed
  and denied (`values_foldl_withSides`).
-/

namespace ContentImport.Grants

open ContentImport.Composition
  (distinct distinct_append distinct_eq_self mem_distinct nodup_distinct)

variable {name : String} {gs : Grants} {restrictions : RestrictionSet}

/-! ## One mention after the other -/

/-- The grants once a name is mentioned, `f` being what becomes of what was said before. -/
def update (f : String → Option Grant → Grant) (gs : Grants) (name : String) : Grants :=
  gs.insert name (f name (gs.get? name))

variable {f : String → Option Grant → Grant}

theorem keys_foldl_update (f : String → Option Grant → Grant) (gs : Grants) (names : List String) :
    (names.foldl (update f) gs).keys = distinct (gs.keys ++ names) := by
  have hself : ∀ gs : Grants, distinct gs.keys = gs.keys := fun gs => distinct_eq_self gs.nodup
  induction names generalizing gs with
  | nil => rw [List.append_nil, hself, List.foldl_nil]
  | cons name names ih =>
    rw [List.foldl_cons, ih, update, Table.keys_insert]
    split
    · next hname =>
      -- a name that comes again adds nothing
      rw [distinct_append, hself, distinct_append, hself, distinct,
        List.filter_cons_of_neg (by simpa), List.filter_filter]
      congr 1
      refine List.filter_congr fun other _ => ?_
      by_cases hother : other = name
      · simp [hother, hname]
      · simp [hother]
    · rw [List.append_assoc, List.singleton_append]

theorem get?_foldl_update (hf : ∀ name g, f name (some (f name g)) = f name g) (gs : Grants)
    (names : List String) :
    (names.foldl (update f) gs).get? name =
      if name ∈ names then some (f name (gs.get? name)) else gs.get? name := by
  induction names generalizing gs with
  | nil => simp
  | cons first names ih =>
    rw [List.foldl_cons, ih, update, Table.get?_insert]
    by_cases hfirst : first = name
    · subst hfirst
      simp [hf]
    · have hne : name ≠ first := fun heq => hfirst heq.symm
      simp [hfirst, hne]

/-! ## Shared restrictions -/

variable (restrictions) (granted denied : List String)

/-- What two lists say of a name. -/
def sharedGrant (name : String) : Grant where
  name
  allow := if name ∈ granted then some restrictions else none
  deny := if name ∈ denied then some restrictions else none

/-- The grants of two lists of names in the order of first mention. -/
def shared : List Grant :=
  (distinct (granted ++ denied)).map (sharedGrant restrictions granted denied)

/-- The grant of a name with what two lists say of it. -/
def withSides (name : String) (g : Option Grant) : Grant :=
  let g := g.getD { name }
  { g with
    allow := if name ∈ granted then some restrictions else g.allow
    deny := if name ∈ denied then some restrictions else g.deny }

/-- A table with the names of two lists in order, each with what the lists say of it, holds the
grants of the lists. -/
theorem values_eq_shared (hkeys : gs.keys = distinct (granted ++ denied))
    (hget : ∀ name ∈ granted ++ denied,
      gs.get? name = some (sharedGrant restrictions granted denied name)) :
    gs.values = shared restrictions granted denied := by
  rw [Table.values, Table.rows_eq, hkeys, List.map_filterMap, shared, ← List.filterMap_eq_map]
  refine List.filterMap_congr fun name hname => ?_
  rw [hget name (mem_distinct.1 hname)]
  rfl

theorem values_foldl_deny_foldl_allow :
    (denied.foldl (fun gs name => Grants.deny gs name restrictions)
        (granted.foldl (fun gs name => Grants.allow gs name restrictions) Table.empty)).values =
      shared restrictions granted denied := by
  have hallow : (fun (gs : Grants) name => Grants.allow gs name restrictions) =
      update fun name g => { g.getD { name } with allow := some restrictions } := rfl
  have hdeny : (fun (gs : Grants) name => Grants.deny gs name restrictions) =
      update fun name g => { g.getD { name } with deny := some restrictions } := rfl
  rw [hallow, hdeny]
  refine values_eq_shared restrictions granted denied ?_ ?_
  · rw [keys_foldl_update, keys_foldl_update, Table.keys_empty, List.nil_append, distinct_append,
      distinct_eq_self (nodup_distinct granted), distinct_append]
    congr 1
    exact List.filter_congr fun name _ => by simp only [mem_distinct]
  · intro name hname
    rw [get?_foldl_update fun _ _ => rfl, get?_foldl_update fun _ _ => rfl, Table.get?_empty]
    by_cases hgranted : name ∈ granted
    · by_cases hdenied : name ∈ denied <;> simp [sharedGrant, hgranted, hdenied]
    · have hdenied : name ∈ denied := (List.mem_append.1 hname).resolve_left hgranted
      simp [sharedGrant, hgranted, hdenied]

theorem values_foldl_withSides :
    ((distinct (granted ++ denied)).foldl (update (withSides restrictions granted denied))
        Table.empty).values = shared restrictions granted denied := by
  have hagain : ∀ name g, withSides restrictions granted denied name
      (some (withSides restrictions granted denied name g)) =
        withSides restrictions granted denied name g := by
    intro name g
    by_cases hgranted : name ∈ granted <;> by_cases hdenied : name ∈ denied <;>
      simp [withSides, hgranted, hdenied]
  refine values_eq_shared restrictions granted denied ?_ ?_
  · rw [keys_foldl_update, Table.keys_empty, List.nil_append, distinct_eq_self (nodup_distinct _)]
  · intro name hname
    rw [get?_foldl_update hagain, if_pos (mem_distinct.2 hname), Table.get?_empty]
    rfl

end ContentImport.Grants
