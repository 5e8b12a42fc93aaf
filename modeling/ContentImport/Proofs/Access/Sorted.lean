import ContentImport.Access.Composition
import Mathlib.Data.List.Induction
import Mathlib.Data.List.Nodup

/-!
# Distinct and sorted lists

What composing entries asks of its list functions.

* `distinct` keeps the elements of a list and has each once (`mem_distinct`, `nodup_distinct`); of
  a sequence of two lists it is that of the first, followed by what the second adds
  (`distinct_append`).
* A list in the order of an asymmetric relation is determined by its elements
  (`eq_of_pairwise_of_mem_iff`).
* The first occurrences in a list (`Firsts`) are determined by it (`Firsts.eq`); for names they are
  what `distinct` keeps (`firsts_distinct`).
* `sortByKey` permutes a list (`sortByKey_perm`) and sorts it, elements with equal keys keeping
  their order (`pairwise_keyBefore_sortByKey`).
* `depthLe` is a linear order, and `leastDepth` the least element for it.
-/

namespace ContentImport.Composition

/-! ## Distinct names -/

theorem mem_distinct {x : String} {l : List String} : x ∈ distinct l ↔ x ∈ l := by
  induction l with
  | nil => rfl
  | cons y l ih =>
    by_cases h : x = y
    · simp [distinct, h]
    · simp [distinct, h, ih]

theorem nodup_distinct (l : List String) : (distinct l).Nodup := by
  induction l with
  | nil => exact List.nodup_nil
  | cons x l ih =>
    rw [distinct, List.nodup_cons]
    exact ⟨fun h => by simpa using List.of_mem_filter h, ih.filter _⟩

/-- A list without repetition is kept. -/
theorem distinct_eq_self {l : List String} (h : l.Nodup) : distinct l = l := by
  induction l with
  | nil => rfl
  | cons x l ih =>
    rw [List.nodup_cons] at h
    rw [distinct, ih h.2, List.filter_eq_self.2]
    intro y hy
    have : y ≠ x := fun e => h.1 (e ▸ hy)
    simpa using this

theorem distinct_append (l m : List String) :
    distinct (l ++ m) = distinct l ++ (distinct m).filter (· ∉ l) := by
  induction l with
  | nil => simp [distinct]
  | cons x l ih =>
    rw [List.cons_append, distinct, distinct, ih, List.filter_append, List.filter_filter,
      List.cons_append]
    congr 2
    refine List.filter_congr fun y _ => ?_
    by_cases h : y = x <;> simp [h]

/-- A list in which one name is repeated has that name alone. -/
theorem distinct_of_forall_eq {x : String} {l : List String} (h : ∀ y ∈ l, y = x) (hl : l ≠ []) :
    distinct l = [x] := by
  cases l with
  | nil => exact absurd rfl hl
  | cons y l =>
    obtain rfl : y = x := h y (by simp)
    have hnone : (distinct l).filter (· != y) = [] := by
      rw [List.filter_eq_nil_iff]
      intro z hz
      have : z = y := h z (List.mem_cons_of_mem _ (mem_distinct.1 hz))
      simp [this]
    rw [distinct, hnone]

/-! ## Ordered lists -/

/-- **A list in the order of an asymmetric relation is determined by its elements.** -/
theorem eq_of_pairwise_of_mem_iff {α : Type} {before : α → α → Prop}
    (asymm : ∀ a b, before a b → ¬ before b a) {l m : List α} (hl : l.Pairwise before)
    (hm : m.Pairwise before) (h : ∀ a, a ∈ l ↔ a ∈ m) : l = m := by
  have nodup : ∀ {l : List α}, l.Pairwise before → l.Nodup := by
    intro l hl
    refine hl.imp ?_
    rintro a _ hself rfl
    exact asymm a a hself hself
  have hperm : l.Perm m := (List.perm_ext_iff_of_nodup (nodup hl) (nodup hm)).2 h
  exact hperm.eq_of_pairwise (fun a b _ _ hab hba => absurd hba (asymm a b hab)) hl hm

/-! ## First occurrences -/

section Firsts

variable {α : Type} [DecidableEq α] {l m m' : List α} {a : α}

/-- The elements of a list, each once, in the order of their first occurrence. -/
structure Firsts (l m : List α) : Prop where
  mem_iff : ∀ a, a ∈ m ↔ a ∈ l
  ordered : m.Pairwise (l.idxOf · < l.idxOf ·)

theorem Firsts.nodup (h : Firsts l m) : m.Nodup :=
  h.ordered.imp fun hlt heq => by simp [heq] at hlt

/-- **A list determines the first occurrences in it.** -/
theorem Firsts.eq (h : Firsts l m) (h' : Firsts l m') : m = m' :=
  eq_of_pairwise_of_mem_iff (fun _ _ => Nat.lt_asymm) h.ordered h'.ordered fun a =>
    (h.mem_iff a).trans (h'.mem_iff a).symm

theorem Firsts.nil : Firsts ([] : List α) [] := ⟨by simp, List.Pairwise.nil⟩

/-- Behind a longer list, the elements of the list occur first where they did. -/
theorem Firsts.ordered_append (h : Firsts l m) (r : List α) :
    m.Pairwise ((l ++ r).idxOf · < (l ++ r).idxOf ·) := by
  refine h.ordered.imp_of_mem fun ha hb hlt => ?_
  rwa [List.idxOf_append_of_mem ((h.mem_iff _).1 ha), List.idxOf_append_of_mem ((h.mem_iff _).1 hb)]

theorem Firsts.concat (h : Firsts l m) (a : α) :
    Firsts (l ++ [a]) (if a ∈ l then m else m ++ [a]) := by
  split
  · next ha =>
    refine ⟨fun b => ?_, h.ordered_append [a]⟩
    have : b = a → b ∈ l := fun hb => hb ▸ ha
    simpa [h.mem_iff b] using this
  · next ha =>
    refine ⟨fun b => by simp [h.mem_iff b], ?_⟩
    refine List.pairwise_append.2 ⟨h.ordered_append [a], List.pairwise_singleton _ a, ?_⟩
    intro b hb c hc
    obtain rfl := List.mem_singleton.1 hc
    have hb' : b ∈ l := (h.mem_iff b).1 hb
    rw [List.idxOf_append_of_mem hb', List.idxOf_append_of_notMem ha]
    exact Nat.lt_add_right _ (List.idxOf_lt_length_of_mem hb')

end Firsts

theorem firsts_distinct (l : List String) : Firsts l (distinct l) := by
  induction l using List.reverseRecOn with
  | nil => exact Firsts.nil
  | append_singleton l a ih =>
    have hconcat : distinct (l ++ [a]) = if a ∈ l then distinct l else distinct l ++ [a] := by
      by_cases ha : a ∈ l <;> simp [distinct_append, distinct, ha]
    exact hconcat ▸ ih.concat a

/-! ## Sorting -/

section Sorting

variable {α κ : Type} (key : α → κ) (le : κ → κ → Bool)

theorem insertByKey_perm (a : α) (l : List α) : (insertByKey key le a l).Perm (a :: l) := by
  induction l with
  | nil => exact List.Perm.refl _
  | cons b l ih =>
    rw [insertByKey]
    split
    · exact (ih.cons b).trans (List.Perm.swap a b l)
    · exact List.Perm.refl _

theorem foldl_insertByKey_perm (l sorted : List α) :
    (l.foldl (fun sorted a => insertByKey key le a sorted) sorted).Perm (l ++ sorted) := by
  induction l generalizing sorted with
  | nil => exact List.Perm.refl _
  | cons a l ih =>
    refine (ih _).trans ?_
    exact ((insertByKey_perm key le a sorted).append_left l).trans List.perm_middle

theorem sortByKey_perm (l : List α) : (sortByKey key le l).Perm l := by
  simpa [sortByKey] using foldl_insertByKey_perm key le l []

variable {le} (total : ∀ a b, le a b = true ∨ le b a = true)
  (trans : ∀ a b c, le a b = true → le b c = true → le a c = true)

/-- That of two elements the one has the lesser key, or stands `before` the other if their keys are
equal. -/
def KeyBefore (le : κ → κ → Bool) (before : α → α → Prop) (a b : α) : Prop :=
  le (key a) (key b) = true ∧ (le (key b) (key a) = true → before a b)

include total trans

theorem pairwise_insertByKey {before : α → α → Prop} {a : α} {l : List α}
    (h : l.Pairwise (KeyBefore key le before)) (ha : ∀ b ∈ l, before b a) :
    (insertByKey key le a l).Pairwise (KeyBefore key le before) := by
  induction l with
  | nil => exact List.pairwise_singleton _ a
  | cons b l ih =>
    obtain ⟨hb, hl⟩ := List.pairwise_cons.1 h
    obtain ⟨hab, hal⟩ := List.forall_mem_cons.1 ha
    rw [insertByKey]
    split
    · next hle =>
      refine List.pairwise_cons.2 ⟨fun c hc => ?_, ih hl hal⟩
      rcases List.mem_cons.1 ((insertByKey_perm key le a l).mem_iff.1 hc) with rfl | hc
      · exact ⟨hle, fun _ => hab⟩
      · exact hb c hc
    · next hle =>
      -- No key from `b` on is as small as that of `a`, so that there are no ties.
      have hlt : le (key a) (key b) = true := (total _ _).resolve_right hle
      refine List.pairwise_cons.2 ⟨fun c hc => ?_, h⟩
      rcases List.mem_cons.1 hc with rfl | hc
      · exact ⟨hlt, fun hle' => absurd hle' hle⟩
      · exact ⟨trans _ _ _ hlt (hb c hc).1,
          fun hca => absurd (trans _ _ _ (hb c hc).1 hca) hle⟩

/-- **Sorting sorts and is stable**, if the order of the keys is linear. -/
theorem pairwise_keyBefore_sortByKey {before : α → α → Prop} {l : List α} (h : l.Pairwise before) :
    (sortByKey key le l).Pairwise (KeyBefore key le before) := by
  induction l using List.reverseRecOn with
  | nil => exact List.Pairwise.nil
  | append_singleton l a ih =>
    obtain ⟨hl, -, hla⟩ := List.pairwise_append.1 h
    rw [sortByKey, List.foldl_concat]
    refine pairwise_insertByKey key total trans (ih hl) fun b hb => ?_
    exact hla b ((sortByKey_perm key le l).mem_iff.1 hb) a (List.mem_singleton_self a)

theorem pairwise_sortByKey (l : List α) :
    (sortByKey key le l).Pairwise fun a b => le (key a) (key b) = true :=
  have hany : l.Pairwise fun _ _ => True := List.pairwise_of_forall fun _ _ => trivial
  (pairwise_keyBefore_sortByKey key total trans hany).imp And.left

end Sorting

/-! ## Depths -/

theorem depthLe_refl (a : Option Nat) : depthLe a a = true := by
  cases a <;> simp [depthLe]

theorem depthLe_total (a b : Option Nat) : depthLe a b = true ∨ depthLe b a = true := by
  cases a <;> cases b <;> simp [depthLe]
  omega

theorem depthLe_trans (a b c : Option Nat) (hab : depthLe a b = true) (hbc : depthLe b c = true) :
    depthLe a c = true := by
  cases a <;> cases b <;> cases c <;> simp [depthLe] at hab hbc ⊢
  omega

theorem depthLe_antisymm {a b : Option Nat} (hab : depthLe a b = true) (hba : depthLe b a = true) :
    a = b := by
  cases a <;> cases b <;> simp [depthLe] at hab hba ⊢
  omega

/-- Folding with the smaller of two depths gives one of the depths, not above any of them. -/
theorem foldl_least (l : List (Option Nat)) (a : Option Nat) :
    (∀ b ∈ a :: l, depthLe (l.foldl (fun a b => if depthLe a b then a else b) a) b = true) ∧
      l.foldl (fun a b => if depthLe a b then a else b) a ∈ a :: l := by
  induction l generalizing a with
  | nil => simp [depthLe_refl]
  | cons b l ih =>
    rw [List.foldl_cons]
    split
    · next hab =>
      obtain ⟨hle, hmem⟩ := ih a
      refine ⟨fun c hc => ?_, ?_⟩
      · rcases List.mem_cons.1 hc with rfl | hc
        · exact hle c (by simp)
        · rcases List.mem_cons.1 hc with rfl | hc
          · exact depthLe_trans _ _ _ (hle a (by simp)) hab
          · exact hle c (List.mem_cons_of_mem _ hc)
      · rcases List.mem_cons.1 hmem with h | h
        · rw [h]; simp
        · exact List.mem_cons_of_mem _ (List.mem_cons_of_mem _ h)
    · next hab =>
      have hba : depthLe b a = true := (depthLe_total a b).resolve_left hab
      obtain ⟨hle, hmem⟩ := ih b
      refine ⟨fun c hc => ?_, List.mem_cons_of_mem _ hmem⟩
      rcases List.mem_cons.1 hc with rfl | hc
      · exact depthLe_trans _ _ _ (hle b (by simp)) hba
      · exact hle c hc

theorem leastDepth_le {l : List (Option Nat)} {a : Option Nat} (h : a ∈ l) :
    depthLe (leastDepth l) a = true :=
  (foldl_least l none).1 a (List.mem_cons_of_mem _ h)

/-- The least depth is one of the depths. -/
theorem leastDepth_mem {l : List (Option Nat)} (hl : l ≠ []) : leastDepth l ∈ l := by
  rcases List.mem_cons.1 (foldl_least l none).2 with h | h
  · obtain ⟨a, l', rfl⟩ := List.exists_cons_of_ne_nil hl
    have hle : depthLe (leastDepth (a :: l')) a = true := leastDepth_le (by simp)
    rw [leastDepth, h] at hle ⊢
    have : a = none := by cases a <;> simp [depthLe] at hle ⊢
    simp [this]
  · exact h

/-- The least depth depends only on which depths there are. -/
theorem leastDepth_congr {l m : List (Option Nat)} (h : ∀ a, a ∈ l ↔ a ∈ m) :
    leastDepth l = leastDepth m := by
  by_cases hl : l = []
  · have hm : m = [] := List.eq_nil_iff_forall_not_mem.2 fun a ha => by
      simpa [hl] using (h a).2 ha
    rw [hl, hm]
  · have hm : m ≠ [] := by
      rintro rfl
      exact hl (List.eq_nil_iff_forall_not_mem.2 fun a ha => by simpa using (h a).1 ha)
    exact depthLe_antisymm (leastDepth_le ((h _).2 (leastDepth_mem hm)))
      (leastDepth_le ((h _).1 (leastDepth_mem hl)))

end ContentImport.Composition
