import ContentImport.Proofs.Repository.Path
import ContentImport.Proofs.Text.Basic
import Mathlib.Data.List.Induction
import Mathlib.Logic.Relation
import Mathlib.Order.Defs.Unbundled

/-!
# Canonical paths

A canonical path is the root, or names each behind a slash (`HasNames`, `IsCanonical`). It is the
root or joined from a canonical path and a name (`IsCanonical.induction`).

* Resolving a text from a canonical path follows the segments of the text over the names of the
  path (`follow`): one step does so for one segment (`HasNames.step`) and a run of steps for a list
  of them (`HasNames.foldl_step`). So what is resolved is canonical, the canonical paths are those
  that are resolved to themselves (`isCanonical_iff_resolve`), and a text may be resolved part by
  part (`resolve_followed`).
* A canonical path lies within another one if going to the parent leads from the one to the other
  (`isWithin_iff_climbs`).
-/

namespace ContentImport.Path

variable {p q n segment : String} {names : List String}

/-! ## The names of a path -/

/-- The path over some names: each of them behind a slash, or the root if there are none. -/
def ofNames (names : List String) : String :=
  if names = [] then root else String.ofList (names.flatMap fun n => '/' :: n.toList)

/-- A path is the one over some names, each of which can name a node. -/
structure HasNames (path : String) (names : List String) : Prop where
  areNames : ∀ n ∈ names, isName n = true
  eq_ofNames : path = ofNames names

/-- A path is the root, or names each behind a slash. -/
def IsCanonical (path : String) : Prop := ∃ names, HasNames path names

theorem stem_ofNames (h : ∀ n ∈ names, isName n = true) :
    stem (ofNames names) = names.flatMap fun n => '/' :: n.toList := by
  cases names with
  | nil => rfl
  | cons n names =>
    have hn : n ≠ "" := (isName_iff.1 (h n List.mem_cons_self)).1
    have hne : ofNames (n :: names) ≠ root := by
      intro hroot
      have hlist := congrArg String.toList hroot
      rw [ofNames, if_neg (List.cons_ne_nil _ _), String.toList_ofList, List.flatMap_cons] at hlist
      have hnil := (List.append_eq_nil_iff.1 (List.cons.inj hlist).2).1
      exact hn (String.toList_eq_nil_iff.1 hnil)
    rw [stem_of_ne hne, ofNames, if_neg (List.cons_ne_nil _ _), String.toList_ofList]

theorem ofNames_concat (h : ∀ n ∈ names, isName n = true) (n : String) :
    ofNames (names ++ [n]) = join (ofNames names) n := by
  apply String.toList_inj.1
  rw [toList_join, stem_ofNames h, ofNames, if_neg (by simp), String.toList_ofList,
    List.flatMap_append, List.flatMap_singleton]

theorem hasNames_root : HasNames root [] := ⟨nofun, rfl⟩

theorem HasNames.join (h : HasNames p names) (hn : isName n = true) :
    HasNames (join p n) (names ++ [n]) where
  areNames := List.forall_mem_append.2 ⟨h.areNames, List.forall_mem_singleton.2 hn⟩
  eq_ofNames := by rw [ofNames_concat h.areNames, h.eq_ofNames]

/-- A path with a last name is joined from the one over the names before it. -/
theorem HasNames.exists_join (h : HasNames p (names ++ [n])) :
    ∃ o, HasNames o names ∧ isName n = true ∧ p = Path.join o n := by
  obtain ⟨hnames, hn⟩ := List.forall_mem_append.1 h.areNames
  exact ⟨ofNames names, ⟨hnames, rfl⟩, hn n (List.mem_singleton_self n),
    h.eq_ofNames.trans (ofNames_concat hnames n)⟩

theorem isCanonical_root : IsCanonical root := ⟨[], hasNames_root⟩

theorem IsCanonical.join (hp : IsCanonical p) (hn : isName n = true) :
    IsCanonical (Path.join p n) := by
  obtain ⟨names, h⟩ := hp
  exact ⟨names ++ [n], h.join hn⟩

/-- Canonical paths come from the root by joining names. -/
@[elab_as_elim]
theorem IsCanonical.induction {motive : ∀ p, IsCanonical p → Prop}
    (root : motive root isCanonical_root)
    (join : ∀ o n (ho : IsCanonical o) (hn : isName n = true), motive o ho →
      motive (Path.join o n) (ho.join hn))
    (hp : IsCanonical p) : motive p hp := by
  obtain ⟨names, h⟩ := hp
  induction names using List.reverseRecOn generalizing p with
  | nil =>
    obtain rfl : p = Path.root := h.eq_ofNames
    exact root
  | append_singleton names n ih =>
    obtain ⟨o, ho, hn, rfl⟩ := h.exists_join
    exact join o n ⟨names, ho⟩ hn (ih ho)

theorem IsCanonical.ne_empty (hp : IsCanonical p) : p ≠ "" := by
  induction hp using IsCanonical.induction with
  | root => decide
  | join o n => exact join_ne_empty o n

theorem IsCanonical.isWithin_root (hp : IsCanonical p) : isWithin p root = true := by
  induction hp using IsCanonical.induction with
  | root => exact isWithin_refl root
  | join o n _ _ ih => exact isWithin_join ih n

/-- A path joined with a name has the parts that it was joined from. -/
theorem IsCanonical.parts_join (hp : IsCanonical p) (hn : isName n = true) :
    parent? (Path.join p n) = some p ∧ name (Path.join p n) = n := by
  obtain ⟨hne, -, -, hslash⟩ := isName_iff.1 hn
  exact ⟨parent?_join hp.ne_empty hslash (join_ne_root hne), name_join hslash⟩

/-! ## Following segments -/

/-- The names after a further segment: an empty one and `.` change nothing, and `..` takes the last
name away if there is one. -/
def follow (names : List String) (segment : String) : List String :=
  if segment = "" ∨ segment = "." then names
  else if segment = ".." then names.dropLast
  else names ++ [segment]

/-- **One step follows one segment.** -/
theorem HasNames.step (h : HasNames p names) (hsegment : '/' ∉ segment.toList) :
    HasNames (step p segment) (follow names segment) := by
  rw [Path.step, follow]
  split
  · exact h
  next hskip =>
  obtain ⟨hempty, hdot⟩ := not_or.1 hskip
  split
  · -- the step up: the root stays, and any other path gives way to its parent
    rcases List.eq_nil_or_concat names with rfl | ⟨names, n, rfl⟩
    · obtain rfl : p = root := h.eq_ofNames
      exact hasNames_root
    · rw [List.concat_eq_append] at h ⊢
      obtain ⟨o, ho, hn, rfl⟩ := h.exists_join
      rw [(IsCanonical.parts_join ⟨names, ho⟩ hn).1, List.dropLast_concat]
      exact ho
  · next hup => exact h.join (isName_iff.2 ⟨hempty, hdot, hup, hsegment⟩)

/-- **A run of steps follows the segments one after the other.** -/
theorem HasNames.foldl_step {segments : List String} (h : HasNames p names)
    (hsegments : ∀ s ∈ segments, '/' ∉ s.toList) :
    HasNames (segments.foldl Path.step p) (segments.foldl follow names) := by
  induction segments generalizing p names with
  | nil => exact h
  | cons segment segments ih =>
    obtain ⟨hsegment, hsegments⟩ := List.forall_mem_cons.1 hsegments
    exact ih (h.step hsegment) hsegments

theorem HasNames.resolve (h : HasNames p names) (relative : String) :
    HasNames (resolve p relative) ((Text.split '/' relative).foldl follow
      (if Text.startsWith root relative = true then [] else names)) := by
  refine HasNames.foldl_step ?_ fun s hs => Text.notMem_of_mem_split hs
  split
  · exact hasNames_root
  · exact h

/-- Names are followed one after the other. -/
theorem foldl_follow (before : List String) (h : ∀ n ∈ names, isName n = true) :
    names.foldl follow before = before ++ names := by
  induction names generalizing before with
  | nil => exact (List.append_nil before).symm
  | cons n names ih =>
    obtain ⟨hn, hnames⟩ := List.forall_mem_cons.1 h
    obtain ⟨hempty, hdot, hup, -⟩ := isName_iff.1 hn
    have hfollow : follow before n = before ++ [n] := by
      rw [follow, if_neg (not_or.2 ⟨hempty, hdot⟩), if_neg hup]
    rw [List.foldl_cons, hfollow, ih _ hnames, List.append_assoc, List.singleton_append]

/-- Behind the first slash stand the names. -/
theorem split_ofNames (h : ∀ n ∈ names, isName n = true) (hne : names ≠ []) :
    Text.split '/' (ofNames names) = "" :: names := by
  have hpieces : Text.pieces '/' (names.flatMap fun n => '/' :: n.toList) =
      [] :: names.map String.toList := by
    clear hne
    induction names using List.reverseRecOn with
    | nil => rfl
    | append_singleton names n ih =>
      obtain ⟨hnames, hn⟩ := List.forall_mem_append.1 h
      have hslash := (isName_iff.1 (hn n (List.mem_singleton_self n))).2.2.2
      rw [List.flatMap_append, List.flatMap_singleton, Text.pieces_append, ih hnames,
        Text.pieces_of_notMem hslash, List.map_append, List.map_singleton, List.cons_append]
  rw [Text.split, ofNames, if_neg hne, String.toList_ofList, hpieces, List.map_cons, List.map_map]
  simp

/-- **The segments of a canonical path lead to its names.** -/
theorem HasNames.foldl_follow_split (h : HasNames p names) :
    (Text.split '/' p).foldl follow [] = names := by
  obtain ⟨hnames, rfl⟩ := h
  by_cases hne : names = []
  · subst hne
    rfl
  · rw [split_ofNames hnames hne, List.foldl_cons]
    exact foldl_follow [] hnames

/-- A canonical path is resolved to itself from anywhere. -/
theorem IsCanonical.resolve_eq (hp : IsCanonical p) (base : String) : resolve base p = p := by
  have hstart : Text.startsWith root p = true := by
    have hwithin := hp.isWithin_root
    rwa [isWithin, if_pos rfl] at hwithin
  obtain ⟨names, h⟩ := hp
  have hresolve : resolve base p = resolve root p := by
    rw [Path.resolve, Path.resolve, if_pos hstart, if_pos hstart]
  have hroot := hasNames_root.resolve p
  rw [if_pos hstart, h.foldl_follow_split] at hroot
  rw [hresolve, hroot.eq_ofNames, h.eq_ofNames]

/-- **The canonical paths are those that are resolved to themselves.** -/
theorem isCanonical_iff_resolve : IsCanonical p ↔ resolve root p = p := by
  constructor
  · intro hp
    exact hp.resolve_eq root
  · intro h
    rw [← h]
    exact ⟨_, hasNames_root.resolve p⟩

instance : DecidablePred IsCanonical := fun _ => decidable_of_iff _ isCanonical_iff_resolve.symm

/-- **A text may be resolved part by part.** -/
theorem resolve_append (base : String) {r s : String} (hr : r ≠ "")
    (hs : Text.startsWith root s = false) :
    resolve base (r ++ "/" ++ s) = resolve (resolve base r) s := by
  have hstart : Text.startsWith root (r ++ "/" ++ s) = Text.startsWith root r := by
    obtain ⟨c, cs, hcs⟩ := List.exists_cons_of_ne_nil (mt String.toList_eq_nil_iff.1 hr)
    simp [Text.startsWith, root, hcs, List.isPrefixOf]
  have hsplit : Text.split '/' (r ++ "/" ++ s) = Text.split '/' r ++ Text.split '/' s :=
    Text.split_append '/' r s
  have hrest : resolve (resolve base r) s = (Text.split '/' s).foldl step (resolve base r) := by
    rw [resolve, hs]
    rfl
  rw [hrest, resolve, hstart, hsplit, List.foldl_append]
  rfl

/-- **Resolving a text from a canonical path follows its segments.** They are followed over the
names of the path, or from the root if the text begins with a slash; the result is canonical. A
canonical path is resolved to itself, and what two texts with a slash between them are resolved to
is found by resolving the one and from there the other. -/
theorem resolve_followed {base : String} {names : List String} (hbase : HasNames base names) :
    (∀ relative, IsCanonical (resolve base relative) ∧
      resolve base relative = ofNames ((Text.split '/' relative).foldl follow
        (if Text.startsWith root relative = true then [] else names))) ∧
    (∀ p, IsCanonical p → resolve base p = p) ∧
    ∀ r s, r ≠ "" → Text.startsWith root s = false →
      resolve base (r ++ "/" ++ s) = resolve (resolve base r) s := by
  refine ⟨fun relative => ?_, fun p hp => hp.resolve_eq base,
    fun r s hr hs => resolve_append base hr hs⟩
  have hresolve := hbase.resolve relative
  exact ⟨⟨_, hresolve⟩, hresolve.eq_ofNames⟩

/-- The path `/apps/site` leads by `./b//../../c` to `/apps/c`. -/
theorem resolve_followed_up :
    HasNames "/apps/site" ["apps", "site"] ∧ IsCanonical "/apps/c" ∧ "./b//.." ≠ "" ∧
      Text.startsWith root "../c" = false ∧
      resolve "/apps/site" "./b//../../c" = "/apps/c" ∧
      resolve "/apps/site" "/apps/c" = "/apps/c" ∧
      resolve "/apps/site" "./b//../../c" = resolve (resolve "/apps/site" "./b//..") "../c" := by
  have hbase : HasNames "/apps/site" ["apps", "site"] := ⟨by decide, rfl⟩
  have hpath : IsCanonical "/apps/c" := by decide
  have hstart : Text.startsWith root "../c" = false := rfl
  obtain ⟨hfollowed, hself, happend⟩ := resolve_followed hbase
  refine ⟨hbase, hpath, by decide, hstart, (hfollowed _).2.trans rfl, hself _ hpath, ?_⟩
  exact happend "./b//.." "../c" (by decide) hstart

/-! ## Ancestors -/

/-- Going to the parent any number of times leads from a path to another one. -/
def Climbs : String → String → Prop :=
  Relation.ReflTransGen fun path parent => parent? path = some parent

/-- The parent of a canonical path is canonical, and the path lies within it. -/
theorem IsCanonical.of_parent? (hp : IsCanonical p) {o : String} (ho : parent? p = some o) :
    IsCanonical o ∧ isWithin p o = true := by
  induction hp using IsCanonical.induction with
  | root => cases ho
  | join q n hq hn _ =>
    obtain rfl : q = o := Option.some.inj ((hq.parts_join hn).1.symm.trans ho)
    exact ⟨hq, isWithin_join_self q n⟩

theorem Climbs.isWithin (h : Climbs p q) (hp : IsCanonical p) : isWithin p q = true := by
  induction h using Relation.ReflTransGen.head_induction_on with
  | refl => exact isWithin_refl q
  | head hparent _ ih =>
    obtain ⟨ho, hwithin⟩ := hp.of_parent? hparent
    exact isWithin_trans hwithin (ih ho)

theorem climbs_of_isWithin (hp : IsCanonical p) (hq : IsCanonical q) (h : isWithin p q = true) :
    Climbs p q := by
  induction hp using IsCanonical.induction with
  | root =>
    obtain rfl : root = q := isWithin_antisymm h hq.isWithin_root
    exact Relation.ReflTransGen.refl
  | join o n ho hn ih =>
    rcases isWithin_of_join ho.ne_empty hq.ne_empty (isName_iff.1 hn).2.2.2 h with heq | hwithin
    · rw [heq]
      exact Relation.ReflTransGen.refl
    · exact Relation.ReflTransGen.head (ho.parts_join hn).1 (ih hwithin)

/-- **The textual test for a subtree is ancestry.** A canonical path lies within another one just
if going to the parent leads there, and a path joined with a name has the one for its parent and
the other for its name. So the test orders the canonical paths, with the root above all of them. -/
theorem isWithin_iff_climbs :
    (∀ p a, IsCanonical p → IsCanonical a → (isWithin p a = true ↔ Climbs p a)) ∧
    (∀ p n, IsCanonical p → isName n = true →
      parent? (join p n) = some p ∧ name (join p n) = n) ∧
    IsPartialOrder {p // IsCanonical p} (fun p a => isWithin p a = true) ∧
    IsCanonical root ∧ ∀ p, IsCanonical p → isWithin p root = true := by
  refine ⟨fun p a hp ha => ?_, fun p n hp hn => hp.parts_join hn, ?_, isCanonical_root,
    fun p hp => hp.isWithin_root⟩
  · exact ⟨climbs_of_isWithin hp ha, fun h => h.isWithin hp⟩
  · exact
      { refl := fun p => isWithin_refl p
        trans := fun p q r hpq hqr => isWithin_trans hpq hqr
        antisymm := fun p q hpq hqp => Subtype.ext (isWithin_antisymm hpq hqp) }

/-- The path `/apps/site` lies within `/apps`, and `/appsite` does not. -/
theorem isWithin_iff_climbs_sibling :
    IsCanonical "/apps/site" ∧ IsCanonical "/apps" ∧ IsCanonical "/appsite" ∧
      isName "site" = true ∧ Climbs "/apps/site" "/apps" ∧ ¬ Climbs "/appsite" "/apps" ∧
      parent? "/apps/site" = some "/apps" ∧ name "/apps/site" = "site" ∧
      isWithin "/apps/site" root = true := by
  have hsite : IsCanonical "/apps/site" := by decide
  have happs : IsCanonical "/apps" := by decide
  have hsibling : IsCanonical "/appsite" := by decide
  obtain ⟨hclimbs, hparts, -, -, hroot⟩ := isWithin_iff_climbs
  have hnot : ¬ isWithin "/appsite" "/apps" = true := by decide
  obtain ⟨hparent, hname⟩ := hparts "/apps" "site" happs (by decide)
  exact ⟨hsite, happs, hsibling, by decide, (hclimbs _ _ hsite happs).1 rfl,
    fun h => hnot ((hclimbs _ _ hsibling happs).2 h), hparent, hname, hroot _ hsite⟩

end ContentImport.Path
