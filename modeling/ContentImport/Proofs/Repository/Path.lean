import ContentImport.Repository.Path
import ContentImport.Table
import Mathlib.Data.List.Basic

/-!
# Paths and subtrees

A path lies within another one if it is that path, or if it is joined from it and some text, which
may have slashes itself (`isWithin_iff`). That is how the textual test is used here: no path needs
to be canonical.

* `isWithin` is reflexive and transitive, and a joined path is longer than its first part
  (`length_lt_join`), so nothing lies within a path that is joined from it
  (`isWithin_join_eq_false`), and two paths that lie within each other are one
  (`isWithin_antisymm`).
* A path that is joined with a name has the parts that it was joined from (`join_inj`,
  `parent?_join`, `name_join`), and any joined path has a parent within its first part
  (`exists_parent?_join`).
-/

namespace ContentImport.Text

/-- The last occurrence in two texts around a character is that in the second one, if there is
one. -/
theorem cutLast_append (sep : Char) (a b : List Char) :
    cutLast sep (a ++ sep :: b) =
      match cutLast sep b with
      | some (c, d) => some (a ++ sep :: c, d)
      | none => some (a, b) := by
  induction a with
  | nil =>
    rw [List.nil_append, cutLast]
    cases cutLast sep b <;> simp
  | cons x a ih =>
    rw [List.cons_append, cutLast, ih]
    cases cutLast sep b <;> rfl

theorem cutLast_append_of_notMem {sep : Char} {a b : List Char} (hb : sep ∉ b) :
    cutLast sep (a ++ sep :: b) = some (a, b) := by
  rw [cutLast_append, cutLast_eq_none_iff.2 hb]

theorem startsWith_iff {lead s : String} :
    startsWith lead s = true ↔ ∃ t, s.toList = lead.toList ++ t := by
  rw [startsWith, List.isPrefixOf_iff_prefix]
  exact ⟨fun ⟨t, ht⟩ => ⟨t, ht.symm⟩, fun ⟨t, ht⟩ => ⟨t, ht.symm⟩⟩

end ContentImport.Text

namespace ContentImport.Path

variable {p q r n m : String}

/-! ## Joined paths -/

/-- What stands before the slash in front of the name of a child. -/
def stem (path : String) : List Char := if path = root then [] else path.toList

theorem toList_join (p n : String) : (join p n).toList = stem p ++ '/' :: n.toList := by
  by_cases hp : p = root
  · simp [join, stem, hp, root]
  · simp [join, stem, hp]

theorem stem_of_ne (h : p ≠ root) : stem p = p.toList := if_neg h

theorem stem_inj (hp : p ≠ "") (hq : q ≠ "") (h : stem p = stem q) : p = q := by
  have hnil : ∀ {s : String}, s.toList = [] → s = "" := fun h => String.toList_eq_nil_iff.1 h
  by_cases hpr : p = root
  · by_cases hqr : q = root
    · rw [hpr, hqr]
    · rw [stem_of_ne hqr, hpr] at h
      exact absurd (hnil h.symm) hq
  · by_cases hqr : q = root
    · rw [stem_of_ne hpr, hqr] at h
      exact absurd (hnil h) hp
    · rw [stem_of_ne hpr, stem_of_ne hqr] at h
      exact String.toList_inj.1 h

theorem join_ne_empty (p n : String) : join p n ≠ "" := by
  intro h
  have := congrArg String.toList h
  simp [toList_join] at this

theorem length_lt_join (hroot : join p n ≠ root) :
    p.toList.length < (join p n).toList.length := by
  rw [toList_join, stem]
  split
  · next hp =>
    have hn : n.toList ≠ [] := by
      intro hn
      apply hroot
      rw [hp, String.toList_eq_nil_iff.1 hn]
      rfl
    have hpos : 0 < n.toList.length := List.length_pos_of_ne_nil hn
    rw [hp]
    exact Nat.succ_lt_succ hpos
  · rw [List.length_append, List.length_cons]
    omega

theorem length_le_join (p n : String) : p.toList.length ≤ (join p n).toList.length := by
  rw [toList_join, stem]
  split
  · next hp =>
    subst hp
    exact Nat.succ_le_succ (Nat.zero_le _)
  · rw [List.length_append]
    omega

theorem join_ne_root (hn : n ≠ "") : join p n ≠ root := by
  intro h
  have hlist := congrArg String.toList h
  rw [toList_join] at hlist
  cases hp : stem p with
  | nil =>
    rw [hp] at hlist
    exact hn (String.toList_eq_nil_iff.1 (List.cons.inj hlist).2)
  | cons c s =>
    rw [hp] at hlist
    exact List.cons_ne_nil _ _ (List.append_eq_nil_iff.1 (List.cons.inj hlist).2).2

theorem join_ne_root_of_ne (hp : p ≠ "") (hroot : p ≠ root) : join p n ≠ root := by
  intro hjoin
  have hlist : p.toList ++ '/' :: n.toList = ['/'] := by
    rw [← stem_of_ne hroot, ← toList_join, hjoin]
    rfl
  have hnil : p.toList = [] := by
    have hlength := congrArg List.length hlist
    rw [List.length_append, List.length_cons, List.length_singleton] at hlength
    exact List.length_eq_zero_iff.1 (by omega)
  exact hp (String.toList_eq_nil_iff.1 hnil)

/-- Joining twice is joining once with both texts. -/
theorem exists_join_join (p n m : String) : ∃ k, join (join p n) m = join p k := by
  by_cases h : join p n = root
  · refine ⟨m, String.toList_inj.1 ?_⟩
    have hp : stem p = [] := by
      have hlist := congrArg String.toList h
      rw [toList_join] at hlist
      cases hs : stem p with
      | nil => rfl
      | cons c s =>
        rw [hs] at hlist
        exact absurd (List.append_eq_nil_iff.1 (List.cons.inj hlist).2).2 (List.cons_ne_nil _ _)
    rw [toList_join, toList_join, h, hp]
    rfl
  · refine ⟨n ++ "/" ++ m, String.toList_inj.1 ?_⟩
    rw [toList_join, stem_of_ne h, toList_join, toList_join]
    simp

/-! ## Subtrees -/

/-- **A path lies within another one if it is that path or is joined from it.** -/
theorem isWithin_iff : isWithin p q = true ↔ p = q ∨ ∃ n, p = join q n := by
  have hjoin : (∃ n, p = join q n) ↔ ∃ t, p.toList = stem q ++ '/' :: t := by
    constructor
    · rintro ⟨n, rfl⟩
      exact ⟨n.toList, toList_join q n⟩
    · rintro ⟨t, ht⟩
      refine ⟨String.ofList t, String.toList_inj.1 ?_⟩
      rw [toList_join, ht, String.toList_ofList]
  rw [hjoin]
  by_cases hq : q = root
  · have hstart : isWithin p q = Text.startsWith root p := by rw [isWithin, if_pos hq]
    rw [hstart, Text.startsWith_iff, hq]
    constructor
    · exact .inr
    · rintro (rfl | h)
      · exact ⟨[], rfl⟩
      · exact h
  · have htest : isWithin p q = (p == q || Text.startsWith (q ++ "/") p) := by
      rw [isWithin, if_neg hq]
    rw [htest, Bool.or_eq_true, beq_iff_eq, Text.startsWith_iff, stem_of_ne hq]
    simp

/-- Outside of the root the text tells whether a path lies within another one. -/
theorem isWithin_iff_append (hq : q ≠ root) :
    isWithin p q = true ↔ p = q ∨ ∃ rest, p = q ++ "/" ++ rest := by
  rw [isWithin_iff]
  refine or_congr_right (exists_congr fun rest => ?_)
  rw [join, if_neg hq]

@[simp] theorem isWithin_refl (p : String) : isWithin p p = true := isWithin_iff.2 (.inl rfl)

theorem isWithin_trans (hpq : isWithin p q = true) (hqr : isWithin q r = true) :
    isWithin p r = true := by
  rw [isWithin_iff] at hpq hqr ⊢
  rcases hpq with rfl | ⟨n, rfl⟩
  · exact hqr
  · rcases hqr with rfl | ⟨m, rfl⟩
    · exact .inr ⟨n, rfl⟩
    · exact .inr (exists_join_join r m n)

theorem isWithin_join_self (p n : String) : isWithin (join p n) p = true :=
  isWithin_iff.2 (.inr ⟨n, rfl⟩)

theorem isWithin_join (h : isWithin p q = true) (n : String) : isWithin (join p n) q = true :=
  isWithin_trans (isWithin_join_self p n) h

theorem length_le_of_isWithin (h : isWithin p q = true) : q.toList.length ≤ p.toList.length := by
  rcases isWithin_iff.1 h with rfl | ⟨n, rfl⟩
  · exact Nat.le_refl _
  · exact length_le_join q n

/-- Nothing lies within a path that is joined from it, except that the root is joined from itself
and the empty text. -/
theorem isWithin_join_eq_false (h : isWithin p q = true) (hroot : join p n ≠ root) :
    isWithin q (join p n) = false := by
  rw [Bool.eq_false_iff]
  intro hq
  have hle := Nat.le_trans (length_le_of_isWithin hq) (length_le_of_isWithin h)
  have hlt := length_lt_join hroot
  omega

/-- Two paths that lie within each other are one. -/
theorem isWithin_antisymm (hpq : isWithin p q = true) (hqp : isWithin q p = true) : p = q := by
  rcases isWithin_iff.1 hpq with heq | ⟨n, hp⟩
  · exact heq
  rcases isWithin_iff.1 hqp with heq | ⟨m, hq⟩
  · exact heq.symm
  -- each is joined from the other, so that it is the root
  have hroot : ∀ {a b k : String}, isWithin b a = true → a = join b k → a = root := by
    intro a b k hba ha
    by_contra hne
    have hfalse := isWithin_join_eq_false (isWithin_refl b) (ha ▸ hne)
    rw [← ha, hba] at hfalse
    cases hfalse
  rw [hroot hqp hp, hroot hpq hq]

/-! ## Taking a path apart -/

theorem parent?_eq_some (hroot : p ≠ root) {a b : List Char}
    (h : Text.cutLast '/' p.toList = some (a, b)) :
    parent? p = some (if a = [] then root else String.ofList a) := by
  rw [parent?, if_neg hroot, h]
  cases a <;> rfl

/-- A joined path has a parent, which lies within the path that it was joined from. -/
theorem exists_parent?_join (hroot : join p n ≠ root) :
    ∃ o, parent? (join p n) = some o ∧ isWithin o p = true := by
  have hcut := Text.cutLast_append '/' (stem p) n.toList
  rw [← toList_join] at hcut
  cases hn : Text.cutLast '/' n.toList with
  | none =>
    rw [hn] at hcut
    refine ⟨_, parent?_eq_some hroot hcut, ?_⟩
    split
    · next hp =>
      -- the stem of the root is empty, and so is that of the empty path, within which the root lies
      refine isWithin_iff.2 ?_
      by_cases hpr : p = root
      · exact .inl hpr.symm
      · rw [stem_of_ne hpr] at hp
        refine .inr ⟨"", String.toList_inj.1 ?_⟩
        rw [toList_join, stem_of_ne hpr, hp]
        rfl
    · next hp =>
      have hpr : p ≠ root := fun h => hp (if_pos h)
      rw [stem_of_ne hpr, String.ofList_toList]
      exact isWithin_refl p
  | some cd =>
    obtain ⟨c, d⟩ := cd
    rw [hn] at hcut
    refine ⟨_, parent?_eq_some hroot hcut, isWithin_iff.2 (.inr ⟨String.ofList c, ?_⟩)⟩
    rw [if_neg (by simp)]
    apply String.toList_inj.1
    rw [toList_join, String.toList_ofList, String.toList_ofList]

theorem parent?_join (hp : p ≠ "") (hn : '/' ∉ n.toList) (hroot : join p n ≠ root) :
    parent? (join p n) = some p := by
  have hcut : Text.cutLast '/' (join p n).toList = some (stem p, n.toList) := by
    rw [toList_join, Text.cutLast_append_of_notMem hn]
  rw [parent?_eq_some hroot hcut]
  by_cases hpr : p = root
  · rw [stem, if_pos hpr, if_pos rfl, hpr]
  · rw [stem_of_ne hpr, if_neg fun h => hp (String.toList_eq_nil_iff.1 h), String.ofList_toList]

theorem name_join (hn : '/' ∉ n.toList) : name (join p n) = n := by
  rw [name, Text.afterLast, toList_join, Text.cutLast_append_of_notMem hn]
  exact String.ofList_toList

/-- A path is joined from one path and one name. -/
theorem join_inj (hp : p ≠ "") (hq : q ≠ "") (hn : '/' ∉ n.toList) (hm : '/' ∉ m.toList)
    (h : join p n = join q m) : p = q ∧ n = m := by
  have hcut := congrArg (fun s => Text.cutLast '/' s.toList) h
  simp only [toList_join, Text.cutLast_append_of_notMem hn, Text.cutLast_append_of_notMem hm,
    Option.some.injEq, Prod.mk.injEq] at hcut
  exact ⟨stem_inj hp hq hcut.1, String.toList_inj.1 hcut.2⟩

/-- A child lies within a path if it is that path, or if its parent lies within it. -/
theorem isWithin_of_join (hp : p ≠ "") (hq : q ≠ "") (hn : '/' ∉ n.toList)
    (h : isWithin (join p n) q = true) : join p n = q ∨ isWithin p q = true := by
  rcases isWithin_iff.1 h with heq | ⟨k, hk⟩
  · exact .inl heq
  refine .inr ?_
  have hcut := congrArg (fun s => Text.cutLast '/' s.toList) hk
  simp only [toList_join, Text.cutLast_append_of_notMem hn, Text.cutLast_append] at hcut
  cases hkcut : Text.cutLast '/' k.toList with
  | none =>
    rw [hkcut] at hcut
    obtain ⟨hstem, -⟩ := Prod.mk.inj (Option.some.inj hcut)
    rw [stem_inj hp hq hstem]
    exact isWithin_refl q
  | some cd =>
    obtain ⟨c, d⟩ := cd
    rw [hkcut] at hcut
    obtain ⟨hstem, -⟩ := Prod.mk.inj (Option.some.inj hcut)
    have hpr : p ≠ root := by
      rintro rfl
      exact List.append_ne_nil_of_right_ne_nil _ (List.cons_ne_nil _ _) hstem.symm
    refine isWithin_iff.2 (.inr ⟨String.ofList c, String.toList_inj.1 ?_⟩)
    rw [← stem_of_ne hpr, hstem, toList_join, String.toList_ofList]

/-! ## Below a path -/

/-- A path is joined from another one. -/
def IsBelow (path ancestor : String) : Prop := ∃ n, path = join ancestor n

theorem IsBelow.within (h : IsBelow p q) : isWithin p q = true := isWithin_iff.2 (.inr h)

theorem isBelow_join (h : isWithin p q = true) (n : String) : IsBelow (join p n) q := by
  rcases isWithin_iff.1 h with rfl | ⟨k, rfl⟩
  · exact ⟨n, rfl⟩
  · exact exists_join_join q k n

/-- The parent of a path below another one lies within that one. -/
theorem IsBelow.isWithin_parent (h : IsBelow p q) {o : String} (ho : parent? p = some o) :
    isWithin o q = true := by
  obtain ⟨n, rfl⟩ := h
  have hroot : join q n ≠ root := by
    intro hroot
    rw [hroot] at ho
    cases ho
  obtain ⟨o', ho', hwithin⟩ := exists_parent?_join hroot
  rw [ho] at ho'
  exact Option.some.inj ho' ▸ hwithin

/-- A path that has a parent does not hold a path that it is below. -/
theorem IsBelow.isWithin_eq_false (h : IsBelow p q) {o : String} (ho : parent? p = some o) :
    isWithin q p = false := by
  obtain ⟨n, rfl⟩ := h
  refine isWithin_join_eq_false (isWithin_refl q) ?_
  intro hroot
  rw [hroot] at ho
  cases ho

/-- A relative path does not lead out of the root. -/
theorem isWithin_step (h : isWithin p root = true) (segment : String) :
    isWithin (step p segment) root = true := by
  unfold step
  split
  · exact h
  split
  · cases hparent : parent? p with
    | none => exact h
    | some o =>
      rcases isWithin_iff.1 h with rfl | hbelow
      · cases hparent
      · exact IsBelow.isWithin_parent hbelow hparent
  · exact isWithin_join h segment

theorem isWithin_resolve (h : isWithin p root = true) (relative : String) :
    isWithin (resolve p relative) root = true := by
  have hfold : ∀ (segments : List String) q, isWithin q root = true →
      isWithin (segments.foldl step q) root = true := by
    intro segments
    induction segments with
    | nil => exact fun q hq => hq
    | cons segment segments ih => exact fun q hq => ih _ (isWithin_step hq segment)
  rw [resolve]
  refine hfold _ _ ?_
  split
  · exact isWithin_refl root
  · exact h

theorem isName_iff : isName n = true ↔ n ≠ "" ∧ n ≠ "." ∧ n ≠ ".." ∧ '/' ∉ n.toList := by
  simp [isName, and_assoc]

/-! ## Siblings -/

/-- What lies within a path that is joined with a name begins with the name behind the stem. -/
theorem exists_of_isWithin_join (hn : n ≠ "") (h : isWithin q (join p n) = true) :
    ∃ t, q.toList = stem p ++ '/' :: (n.toList ++ t) ∧ t.takeWhile (· != '/') = [] := by
  rcases isWithin_iff.1 h with rfl | ⟨k, rfl⟩
  · exact ⟨[], by rw [toList_join, List.append_nil], rfl⟩
  · refine ⟨'/' :: k.toList, ?_, rfl⟩
    rw [toList_join, stem_of_ne (join_ne_root hn), toList_join]
    simp

/-- Nothing lies within two children of one path. -/
theorem isWithin_sibling_eq_false (hn : isName n = true) (hm : isName m = true) (hne : n ≠ m)
    (h : isWithin q (join p n) = true) : isWithin q (join p m) = false := by
  obtain ⟨hn, -, -, hnslash⟩ := isName_iff.1 hn
  obtain ⟨hm, -, -, hmslash⟩ := isName_iff.1 hm
  rw [Bool.eq_false_iff]
  intro h'
  obtain ⟨t, ht, htake⟩ := exists_of_isWithin_join hn h
  obtain ⟨t', ht', htake'⟩ := exists_of_isWithin_join hm h'
  have heq : n.toList ++ t = m.toList ++ t' :=
    (List.cons.inj (List.append_cancel_left (ht.symm.trans ht'))).2
  -- up to the first slash the two texts are the names
  have hfirst : ∀ {s : String} {u : List Char}, '/' ∉ s.toList →
      u.takeWhile (· != '/') = [] → (s.toList ++ u).takeWhile (· != '/') = s.toList := by
    intro s u hs hu
    have hall : ∀ c ∈ s.toList, (c != '/') = true := by
      intro c hc
      have hne : c ≠ '/' := fun heq => hs (heq ▸ hc)
      simpa using hne
    rw [List.takeWhile_append_of_pos hall, hu, List.append_nil]
  refine hne (String.toList_inj.1 ?_)
  rw [← hfirst hnslash htake, heq, hfirst hmslash htake']

/-! ## Tables of paths -/

/-- What a table holds outside of a path. -/
theorem get?_outside {α : Type} (t : Table α) (p q : String) :
    (t.filter fun k _ => !isWithin k p).get? q =
      if isWithin q p = true then none else t.get? q := by
  rw [Table.get?_filter]
  cases isWithin q p <;> cases t.get? q <;> rfl

end ContentImport.Path
