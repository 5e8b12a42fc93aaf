import ContentImport.Access.Placement
import ContentImport.Proofs.Access.Sorted

/-!
# Where new entries go

The entries of a principal are taken out of an access-control list and its new entries are put
into what is left, as one block.

* `CutBefore` and `CutAfter` cut a list right before the first entry of a principal and right
  after its last one.
* `Placed` says where a directive puts the block among the entries of the others, and `PlacedAt`
  adds what happens without a directive.
* `Misplaced` says which directives are refused: those that point at a principal without entries,
  or at a place that is out of range.
* A directive either places the block or is refused (`exists_placed_or_misplaced`), and
  `AccessList.place` does what the two relations say (`place_eq_ok_iff`, `place_eq_error_iff`).
-/

namespace ContentImport.AccessList

/-! ## Cutting a list at a principal -/

/-- The list is cut right before the first entry of `x`. -/
structure CutBefore (acl : AccessList) (x : String) (l r : AccessList) : Prop where
  eq : acl = l ++ r
  first : ∃ e s, r = e :: s ∧ e.principalName = x
  before : ∀ e ∈ l, e.principalName ≠ x

/-- The list is cut right after the last entry of `x`. -/
structure CutAfter (acl : AccessList) (x : String) (l r : AccessList) : Prop where
  eq : acl = l ++ r
  last : ∃ s e, l = s ++ [e] ∧ e.principalName = x
  after : ∀ e ∈ r, e.principalName ≠ x

theorem mem_principals {acl : AccessList} {x : String} :
    x ∈ acl.principals ↔ ∃ e ∈ acl, e.principalName = x := by
  rw [principals, Composition.mem_distinct, List.mem_map]

theorem exists_cutBefore {acl : AccessList} {x : String} (h : x ∈ acl.principals) :
    ∃ l r, CutBefore acl x l r := by
  induction acl with
  | nil => simp [mem_principals] at h
  | cons f acl ih =>
    by_cases hf : f.principalName = x
    · exact ⟨[], f :: acl, rfl, ⟨f, acl, rfl, hf⟩, by simp⟩
    · obtain ⟨e, he, hx⟩ := mem_principals.1 h
      have he : e ∈ acl := (List.mem_cons.1 he).resolve_left (fun e' => hf (e' ▸ hx))
      obtain ⟨l, r, rfl, hr, hl⟩ := ih (mem_principals.2 ⟨e, he, hx⟩)
      exact ⟨f :: l, r, rfl, hr, List.forall_mem_cons.2 ⟨hf, hl⟩⟩

theorem exists_cutAfter {acl : AccessList} {x : String} (h : x ∈ acl.principals) :
    ∃ l r, CutAfter acl x l r := by
  induction acl with
  | nil => simp [mem_principals] at h
  | cons f acl ih =>
    by_cases hx : x ∈ AccessList.principals acl
    · obtain ⟨l, r, rfl, ⟨s, e, rfl, he⟩, hr⟩ := ih hx
      exact ⟨f :: (s ++ [e]), r, rfl, ⟨f :: s, e, rfl, he⟩, hr⟩
    · obtain ⟨e, he, hex⟩ := mem_principals.1 h
      have hnone : ∀ e ∈ acl, e.principalName ≠ x := fun e he hex =>
        hx (mem_principals.2 ⟨e, he, hex⟩)
      obtain rfl : e = f := (List.mem_cons.1 he).resolve_right fun he => hnone e he hex
      exact ⟨[e], acl, rfl, ⟨[], e, rfl, hex⟩, hnone⟩

theorem CutAfter.mem_principals {acl : AccessList} {x : String} {l r : AccessList}
    (h : CutAfter acl x l r) : x ∈ acl.principals := by
  obtain ⟨s, e, rfl, he⟩ := h.last
  exact AccessList.mem_principals.2 ⟨e, by rw [h.eq]; simp, he⟩

/-- What follows a list does not change where it is cut before a principal. -/
theorem CutBefore.append {acl : AccessList} {x : String} {l r : AccessList}
    (h : CutBefore acl x l r) (m : AccessList) : CutBefore (acl ++ m) x l (r ++ m) := by
  obtain ⟨e, s, rfl, he⟩ := h.first
  exact ⟨by rw [h.eq, List.append_assoc], ⟨e, s ++ m, rfl, he⟩, h.before⟩

/-- Entries of others that follow a list do not change where it is cut after a principal. -/
theorem CutAfter.append {acl : AccessList} {x : String} {l r : AccessList}
    (h : CutAfter acl x l r) {m : AccessList} (hm : ∀ e ∈ m, e.principalName ≠ x) :
    CutAfter (acl ++ m) x l (r ++ m) := by
  refine ⟨by rw [h.eq, List.append_assoc], h.last, fun e he => ?_⟩
  exact (List.mem_append.1 he).elim (h.after e) (hm e)

theorem CutBefore.firstOf? {acl : AccessList} {x : String} {l r : AccessList}
    (h : CutBefore acl x l r) : acl.firstOf? x = some l.length := by
  obtain ⟨e, s, rfl, he⟩ := h.first
  have hl : l.findIdx? (fun e => e.principalName == x) = none := by
    rw [List.findIdx?_eq_none_iff]
    exact fun f hf => by simpa using h.before f hf
  rw [h.eq, AccessList.firstOf?, List.findIdx?_append, hl]
  simp [List.findIdx?_cons, he]

theorem CutAfter.lastOf? {acl : AccessList} {x : String} {l r : AccessList}
    (h : CutAfter acl x l r) : acl.lastOf? x = some (l.length - 1) := by
  obtain ⟨s, e, rfl, he⟩ := h.last
  have hr : r.reverse.findIdx? (fun e => e.principalName == x) = none := by
    rw [List.findIdx?_eq_none_iff]
    exact fun f hf => by simpa using h.after f (List.mem_reverse.1 hf)
  rw [h.eq, AccessList.lastOf?, List.reverse_append, List.findIdx?_append, hr]
  simp [List.findIdx?_cons, he]

theorem firstOf?_eq_none {acl : AccessList} {x : String} (h : x ∉ acl.principals) :
    acl.firstOf? x = none := by
  rw [firstOf?, List.findIdx?_eq_none_iff]
  intro e he
  have : e.principalName ≠ x := fun hx => h (mem_principals.2 ⟨e, he, hx⟩)
  simpa using this

theorem lastOf?_eq_none {acl : AccessList} {x : String} (h : x ∉ acl.principals) :
    acl.lastOf? x = none := by
  have : acl.reverse.findIdx? (fun e => e.principalName == x) = none := by
    rw [List.findIdx?_eq_none_iff]
    intro e he
    have : e.principalName ≠ x := fun hx =>
      h (mem_principals.2 ⟨e, List.mem_reverse.1 he, hx⟩)
    simpa using this
  rw [lastOf?, this, Option.map_none]

/-! ## The entries of a principal and those of the others -/

section Others

variable {acl : AccessList} {p : String}

theorem mem_without {e : Entry} : e ∈ acl.without p ↔ e ∈ acl ∧ e.principalName ≠ p := by
  simp [without]

theorem mem_of {e : Entry} : e ∈ acl.of p ↔ e ∈ acl ∧ e.principalName = p := by
  simp [AccessList.of]

theorem of_append (l r : AccessList) :
    AccessList.of (l ++ r) p = AccessList.of l p ++ AccessList.of r p :=
  List.filter_append _ _

theorem without_append (l r : AccessList) :
    AccessList.without (l ++ r) p = AccessList.without l p ++ AccessList.without r p :=
  List.filter_append _ _

theorem of_eq_self (h : ∀ e ∈ acl, e.principalName = p) : acl.of p = acl :=
  List.filter_eq_self.2 fun e he => by simpa using h e he

theorem of_eq_nil (h : ∀ e ∈ acl, e.principalName ≠ p) : acl.of p = [] :=
  List.filter_eq_nil_iff.2 fun e he => by simpa using h e he

theorem without_eq_self (h : ∀ e ∈ acl, e.principalName ≠ p) : acl.without p = acl :=
  List.filter_eq_self.2 fun e he => by simpa using h e he

theorem without_eq_nil (h : ∀ e ∈ acl, e.principalName = p) : acl.without p = [] :=
  List.filter_eq_nil_iff.2 fun e he => by simpa using h e he

theorem of_without {q : String} (h : q ≠ p) : (acl.without p).of q = acl.of q := by
  rw [AccessList.of, AccessList.without, List.filter_filter]
  refine List.filter_congr fun e _ => ?_
  by_cases he : e.principalName = q
  · simp [he, h]
  · simp [he]

end Others

/-! ## Directives -/

/-- Where a directive puts the entries `new` of a principal among those of the others. -/
inductive Placed (p : String) (others new : AccessList) : OrderDirective → AccessList → Prop
  | first : Placed p others new .first (new ++ others)
  | last : Placed p others new .last (others ++ new)
  | before {x : String} {l r : AccessList} (cut : CutBefore others x l r) :
    Placed p others new (.before x) (l ++ new ++ r)
  | after {x : String} {l r : AccessList} (cut : CutAfter others x l r) :
    Placed p others new (.after x) (l ++ new ++ r)
  | beforeItself (h : new ≠ []) : Placed p others new (.before p) (others ++ new)
  | afterItself (h : new ≠ []) : Placed p others new (.after p) (others ++ new)
  | index {n : Nat} {x : String} {l r : AccessList} (hx : others.principals[n]? = some x)
    (cut : CutBefore others x l r) : Placed p others new (.index n) (l ++ new ++ r)
  | indexEnd (h : new ≠ []) : Placed p others new (.index others.principals.length) (others ++ new)

/-- Why a directive is refused, given the list of the others followed by the new entries. -/
inductive Misplaced (all : AccessList) : OrderDirective → AccessError → Prop
  | before {x : String} (hx : x ∉ all.principals) :
    Misplaced all (.before x) (.orderTargetNotFound x)
  | after {x : String} (hx : x ∉ all.principals) :
    Misplaced all (.after x) (.orderTargetNotFound x)
  | index {n : Int} (hn : n < 0 ∨ (all.principals.length : Int) ≤ n) :
    Misplaced all (.index n) (.orderIndexOutOfRange n)

/-- Where the entries `new` of a principal go in a list, with a directive or without one. -/
inductive PlacedAt (acl : AccessList) (p : String) (new : AccessList) :
    Option OrderDirective → AccessList → Prop
  | given {d : OrderDirective} {result : AccessList} (h : Placed p (acl.without p) new d result) :
    PlacedAt acl p new (some d) result
  | cleared (h : new = []) : PlacedAt acl p new none (acl.without p)
  | added (h : ∀ e ∈ acl, e.principalName ≠ p) : PlacedAt acl p new none (acl.without p ++ new)
  | kept {l r result : AccessList} (hnew : new ≠ []) (cut : CutBefore acl p l r)
    (h : Placed p (acl.without p) new (.index l.principals.length) result) :
    PlacedAt acl p new none result

section Placing

variable {p : String} {others new : AccessList}

/-- A placed list has the entries of the others and the new ones. -/
theorem Placed.mem {d : OrderDirective} {result : AccessList} (h : Placed p others new d result)
    {e : Entry} (he : e ∈ result) : e ∈ others ∨ e ∈ new := by
  have hcut : ∀ {l r : AccessList}, others = l ++ r → e ∈ l ++ new ++ r → e ∈ others ∨ e ∈ new := by
    rintro l r rfl he
    simp only [List.mem_append] at he ⊢
    rcases he with (he | he) | he
    · exact .inl (.inl he)
    · exact .inr he
    · exact .inl (.inr he)
  cases h with
  | first => exact (List.mem_append.1 he).symm
  | before cut | index _ cut => exact hcut cut.eq he
  | after cut => exact hcut cut.eq he
  | _ => exact List.mem_append.1 he

theorem PlacedAt.mem {acl : AccessList} {d : Option OrderDirective} {result : AccessList}
    (h : PlacedAt acl p new d result) {e : Entry} (he : e ∈ result) :
    e ∈ acl.without p ∨ e ∈ new := by
  cases h with
  | given h => exact h.mem he
  | cleared => exact .inl he
  | added => exact List.mem_append.1 he
  | kept _ _ h => exact h.mem he

theorem principals_append (hothers : ∀ e ∈ others, e.principalName ≠ p)
    (hnew : ∀ e ∈ new, e.principalName = p) :
    AccessList.principals (others ++ new) = others.principals ++ if new = [] then [] else [p] := by
  rw [principals, List.map_append, Composition.distinct_append, ← principals]
  congr 1
  split
  · next h => simp [h, Composition.distinct]
  · next h =>
    rw [Composition.distinct_of_forall_eq (x := p) (by simpa using hnew) (by simpa using h)]
    simpa using hothers

/-- Moving the entries of a principal from the end puts them at the given position. -/
theorem moveBefore_append {l r : AccessList} (hl : ∀ e ∈ l, e.principalName ≠ p)
    (hr : ∀ e ∈ r, e.principalName ≠ p) (hnew : ∀ e ∈ new, e.principalName = p) :
    moveBefore (l ++ r ++ new) p l.length = l ++ new ++ r := by
  rw [List.append_assoc, moveBefore, List.getElem?_append_right (Nat.le_refl _), Nat.sub_self]
  cases r with
  | nil =>
    -- the position is that of the first of the entries, or behind the list
    cases new with
    | nil => simp
    | cons e new => simp [hnew e (by simp)]
  | cons f r =>
    have hf : f.principalName ≠ p := hr f (by simp)
    have hof : AccessList.of (l ++ (f :: r ++ new)) p = new := by
      rw [of_append, of_append, of_eq_nil hl, of_eq_nil hr, of_eq_self hnew]
      simp
    simp only [List.cons_append, List.getElem?_cons_zero, hf, ↓reduceIte, List.take_left,
      List.drop_left, without_eq_self hl]
    rw [← List.cons_append, hof, without_append, without_eq_self hr, without_eq_nil hnew,
      List.append_nil]

/-- The list with the new entries at the end, rearranged by a directive. -/
def arrange (p : String) (all : AccessList) (d : OrderDirective) :
    Except AccessError AccessList :=
  (target all d).map fun
    | none => all
    | some i => moveBefore all p i

theorem arrange_of_target_end {d : OrderDirective} {all : AccessList}
    (h : target all d = .ok none) : arrange p all d = .ok all := by
  rw [arrange, h]; rfl

theorem arrange_of_target {d : OrderDirective} {l r : AccessList}
    (hl : ∀ e ∈ l, e.principalName ≠ p) (hr : ∀ e ∈ r, e.principalName ≠ p)
    (hnew : ∀ e ∈ new, e.principalName = p) (h : target (l ++ r ++ new) d = .ok (some l.length)) :
    arrange p (l ++ r ++ new) d = .ok (l ++ new ++ r) := by
  rw [arrange, h]
  exact congrArg Except.ok (moveBefore_append hl hr hnew)

theorem arrange_eq_error {d : OrderDirective} {all : AccessList} {e : AccessError}
    (h : target all d = .error e) : arrange p all d = .error e := by
  rw [arrange, h]; rfl

theorem target_index {all : AccessList} {n : Nat} {x : String} {i : Nat}
    (hx : all.principals[n]? = some x) (hi : all.firstOf? x = some i) :
    target all (.index n) =
      .ok (if n + 1 = all.principals.length then none else some i) := by
  have hn : n < all.principals.length := (List.getElem?_eq_some_iff.1 hx).1
  have hin : ¬ ((n : Int) < 0 ∨ (all.principals.length : Int) ≤ n) := by omega
  have hend : ((n : Int) + 1 = all.principals.length) = (n + 1 = all.principals.length) := by
    apply propext
    omega
  simp only [target, hin, ↓reduceIte, hend, Int.toNat_natCast, hx, Option.bind_some, hi]

section Arranged

variable (hothers : ∀ e ∈ others, e.principalName ≠ p) (hnew : ∀ e ∈ new, e.principalName = p)

include hothers hnew

theorem arrange_first : arrange p (others ++ new) .first = .ok (new ++ others) := by
  by_cases hall : others ++ new = []
  · obtain ⟨rfl, rfl⟩ := List.append_eq_nil_iff.1 hall
    rfl
  · refine arrange_of_target (l := []) (r := others) (by simp) hothers hnew ?_
    have : (others ++ new).isEmpty = false := by simpa using hall
    simp [target, this]

theorem arrange_before {x : String} {l r : AccessList} (cut : CutBefore others x l r) :
    arrange p (others ++ new) (.before x) = .ok (l ++ new ++ r) := by
  have hfirst := (cut.append new).firstOf?
  obtain ⟨rfl, -, -⟩ := cut
  obtain ⟨hl, hr⟩ := List.forall_mem_append.1 hothers
  refine arrange_of_target hl hr hnew ?_
  rw [target, hfirst]

theorem arrange_after {x : String} {l r : AccessList} (cut : CutAfter others x l r) :
    arrange p (others ++ new) (.after x) = .ok (l ++ new ++ r) := by
  obtain ⟨e, he, hx⟩ := mem_principals.1 cut.mem_principals
  have hne : ∀ f ∈ new, f.principalName ≠ x := fun f hf hfx =>
    hothers e he (hx.trans (hfx.symm.trans (hnew f hf)))
  have hlast := (cut.append hne).lastOf?
  obtain ⟨rfl, ⟨s, e', rfl, -⟩, -⟩ := cut
  obtain ⟨hl, hr⟩ := List.forall_mem_append.1 hothers
  rw [List.length_append, List.length_singleton, Nat.add_sub_cancel] at hlast
  by_cases hend : r ++ new = []
  · obtain ⟨rfl, rfl⟩ := List.append_eq_nil_iff.1 hend
    simp only [List.append_nil] at hlast ⊢
    refine arrange_of_target_end ?_
    simp [target, hlast]
  · refine arrange_of_target hl hr hnew ?_
    have : 0 < (r ++ new).length := List.length_pos_of_ne_nil hend
    rw [List.length_append] at this
    rw [target, hlast]
    simp only [List.length_append, List.length_singleton]
    rw [if_pos (by omega)]

theorem arrange_beforeItself (hne : new ≠ []) :
    arrange p (others ++ new) (.before p) = .ok (others ++ new) := by
  obtain ⟨e, s, rfl⟩ := List.exists_cons_of_ne_nil hne
  have cut : CutBefore (others ++ e :: s) p others (e :: s) :=
    ⟨rfl, ⟨e, s, rfl, hnew e (by simp)⟩, hothers⟩
  have := arrange_of_target (d := .before p) (r := []) hothers (by simp) hnew
    (by rw [List.append_nil, target, cut.firstOf?])
  simpa using this

omit hothers in
theorem arrange_afterItself (hne : new ≠ []) :
    arrange p (others ++ new) (.after p) = .ok (others ++ new) := by
  have cut : CutAfter (others ++ new) p (others ++ new) [] := by
    refine ⟨by simp, ⟨others ++ new.dropLast, new.getLast hne, ?_, ?_⟩, by simp⟩
    · rw [List.append_assoc, List.dropLast_append_getLast]
    · exact hnew _ (List.getLast_mem hne)
  refine arrange_of_target_end ?_
  have : 0 < (others ++ new).length := by
    rw [List.length_append]
    have := List.length_pos_of_ne_nil hne
    omega
  rw [target, cut.lastOf?]
  simp only
  rw [if_neg (by omega)]

theorem arrange_index {n : Nat} {x : String} {l r : AccessList}
    (hx : others.principals[n]? = some x) (cut : CutBefore others x l r) :
    arrange p (others ++ new) (.index n) = .ok (l ++ new ++ r) := by
  have hnames := principals_append hothers hnew
  have hfirst := (cut.append new).firstOf?
  have hn : n < others.principals.length := (List.getElem?_eq_some_iff.1 hx).1
  have hx' : (AccessList.principals (others ++ new))[n]? = some x := by
    rw [hnames, List.getElem?_append_left hn, hx]
  have htarget := target_index hx' hfirst
  obtain ⟨rfl, -, -⟩ := cut
  obtain ⟨hl, hr⟩ := List.forall_mem_append.1 hothers
  split at htarget
  · next hend =>
    -- the last place of all, with nothing new
    have hnil : new = [] := by
      by_contra hne
      rw [hnames, if_neg hne, List.length_append, List.length_singleton] at hend
      omega
    subst hnil
    simpa using arrange_of_target_end (p := p) htarget
  · exact arrange_of_target hl hr hnew htarget

theorem arrange_indexEnd (hne : new ≠ []) :
    arrange p (others ++ new) (.index others.principals.length) = .ok (others ++ new) := by
  have hnames := principals_append hothers hnew
  refine arrange_of_target_end ?_
  rw [target, hnames, if_neg hne, List.length_append, List.length_singleton]
  rw [if_neg (by omega), if_pos (by omega)]

/-- **A directive puts the entries where `Placed` says.** -/
theorem arrange_of_placed {d : OrderDirective} {result : AccessList}
    (h : Placed p others new d result) : arrange p (others ++ new) d = .ok result := by
  cases h with
  | first => exact arrange_first hothers hnew
  | last => exact arrange_of_target_end rfl
  | before cut => exact arrange_before hothers hnew cut
  | after cut => exact arrange_after hothers hnew cut
  | beforeItself hne => exact arrange_beforeItself hothers hnew hne
  | afterItself hne => exact arrange_afterItself hnew hne
  | index hx cut => exact arrange_index hothers hnew hx cut
  | indexEnd hne => exact arrange_indexEnd hothers hnew hne

end Arranged

/-- **A directive is refused for the reasons that `Misplaced` gives.** -/
theorem arrange_of_misplaced {all : AccessList} {d : OrderDirective} {e : AccessError}
    (h : Misplaced all d e) : arrange p all d = .error e := by
  refine arrange_eq_error ?_
  cases h with
  | before hx => rw [target, firstOf?_eq_none hx]
  | after hx => rw [target, lastOf?_eq_none hx]
  | index hn => rw [target, if_pos hn]

/-- A directive either places the entries or is refused. -/
theorem exists_placed_or_misplaced (hothers : ∀ e ∈ others, e.principalName ≠ p)
    (hnew : ∀ e ∈ new, e.principalName = p) (d : OrderDirective) :
    (∃ result, Placed p others new d result) ∨ ∃ e, Misplaced (others ++ new) d e := by
  have hnames := principals_append hothers hnew
  -- a principal of the whole list is one of the others, or the one that is placed
  have hmem : ∀ x, x ∉ AccessList.principals (others ++ new) ∨ x ∈ others.principals ∨
      x = p ∧ new ≠ [] := by
    intro x
    by_cases hx : x ∈ AccessList.principals (others ++ new)
    · rw [hnames, List.mem_append] at hx
      refine .inr (hx.imp_right fun hx => ?_)
      by_cases hne : new = []
      · simp [hne] at hx
      · exact ⟨by simpa [hne] using hx, hne⟩
    · exact .inl hx
  cases d with
  | first => exact .inl ⟨_, .first⟩
  | last => exact .inl ⟨_, .last⟩
  | before x =>
    rcases hmem x with hx | hx | ⟨rfl, hne⟩
    · exact .inr ⟨_, .before hx⟩
    · obtain ⟨l, r, cut⟩ := exists_cutBefore hx
      exact .inl ⟨_, .before cut⟩
    · exact .inl ⟨_, .beforeItself hne⟩
  | after x =>
    rcases hmem x with hx | hx | ⟨rfl, hne⟩
    · exact .inr ⟨_, .after hx⟩
    · obtain ⟨l, r, cut⟩ := exists_cutAfter hx
      exact .inl ⟨_, .after cut⟩
    · exact .inl ⟨_, .afterItself hne⟩
  | index n =>
    by_cases hn : n < 0 ∨ ((AccessList.principals (others ++ new)).length : Int) ≤ n
    · exact .inr ⟨_, .index hn⟩
    · obtain ⟨n, rfl⟩ := Int.eq_ofNat_of_zero_le (a := n) (by omega)
      rw [hnames, List.length_append] at hn
      by_cases hlt : n < others.principals.length
      · have hx := List.getElem?_eq_getElem hlt
        obtain ⟨l, r, cut⟩ := exists_cutBefore (List.getElem_mem hlt)
        exact .inl ⟨_, .index hx cut⟩
      · have hne : new ≠ [] := by
          rintro rfl
          simp at hn
          omega
        obtain rfl : n = others.principals.length := by
          rw [if_neg hne, List.length_singleton] at hn
          omega
        exact .inl ⟨_, .indexEnd hne⟩

end Placing

/-! ## Replacing the entries of a principal -/

section Replacing

variable {acl new : AccessList} {p : String} {order : Option String}

theorem without_ne : ∀ e ∈ acl.without p, e.principalName ≠ p := fun _ he =>
  (mem_without.1 he).2

theorem CutBefore.rank? {l r : AccessList} (h : CutBefore acl p l r) :
    acl.rank? p = some l.principals.length := by
  obtain ⟨e, s, rfl, he⟩ := h.first
  rw [h.eq, AccessList.rank?, if_pos (by simp [he]), List.takeWhile_append_of_pos]
  · simp [he]
  · exact fun f hf => by simpa using h.before f hf

theorem rank?_eq_none (h : ∀ e ∈ acl, e.principalName ≠ p) : acl.rank? p = none := by
  rw [rank?, if_neg]
  simpa using h

/-- Fewer principals stand before a principal than there are others. -/
theorem CutBefore.length_principals_le {l r : AccessList} (h : CutBefore acl p l r) :
    l.principals.length ≤ (acl.without p).principals.length := by
  rw [h.eq, without_append, without_eq_self h.before, principals, principals, List.map_append,
    Composition.distinct_append, List.length_append]
  exact Nat.le_add_right _ _

theorem place_of_error {e : AccessError} (h : directive? order = .error e) :
    acl.place p new order = .error e := by
  rw [place, h]; rfl

theorem place_of_given {d : OrderDirective} (h : directive? order = .ok (some d)) :
    acl.place p new order = arrange p (acl.without p ++ new) d := by
  rw [place, h, arrange]
  simp only [bind, Except.bind, Option.orElse]
  cases target (acl.without p ++ new) d with
  | error e => rfl
  | ok i? => cases i? <;> rfl

theorem place_of_cleared (h : directive? order = .ok none) :
    acl.place p [] order = .ok (acl.without p) := by
  rw [place, h]
  exact congrArg Except.ok (List.append_nil _)

theorem place_of_added (h : directive? order = .ok none) (hp : ∀ e ∈ acl, e.principalName ≠ p) :
    acl.place p new order = .ok (acl.without p ++ new) := by
  rw [place, h, rank?_eq_none hp]
  cases new <;> rfl

theorem place_of_kept {l r : AccessList} (h : directive? order = .ok none) (hnew : new ≠ [])
    (cut : CutBefore acl p l r) :
    acl.place p new order =
      arrange p (acl.without p ++ new) (.index l.principals.length) := by
  obtain ⟨e, s, rfl⟩ := List.exists_cons_of_ne_nil hnew
  rw [place, h, cut.rank?, arrange]
  simp only [bind, Except.bind, Option.orElse, List.isEmpty_cons, Bool.false_eq_true, ↓reduceIte,
    Option.bind_some, Option.pure_def, Option.map_some]
  cases target (acl.without p ++ e :: s) (.index l.principals.length) with
  | error e => rfl
  | ok i? => cases i? <;> rfl

/-- Without a directive the entries always find a place. -/
theorem exists_placedAt_none (hnew : ∀ e ∈ new, e.principalName = p) :
    ∃ result, PlacedAt acl p new none result := by
  by_cases hne : new = []
  · exact ⟨_, .cleared hne⟩
  by_cases hp : ∀ e ∈ acl, e.principalName ≠ p
  · exact ⟨_, .added hp⟩
  push Not at hp
  obtain ⟨l, r, cut⟩ := exists_cutBefore (mem_principals.2 hp)
  rcases exists_placed_or_misplaced without_ne hnew (.index l.principals.length) with
    ⟨result, h⟩ | ⟨e, h⟩
  · exact ⟨result, .kept hne cut h⟩
  · cases h with
    | index hn =>
      rw [principals_append without_ne hnew, if_neg hne, List.length_append,
        List.length_singleton] at hn
      have := cut.length_principals_le
      omega

theorem place_of_placedAt (hnew : ∀ e ∈ new, e.principalName = p) {d : Option OrderDirective}
    {result : AccessList} (hd : directive? order = .ok d) (h : PlacedAt acl p new d result) :
    acl.place p new order = .ok result := by
  cases h with
  | given h => rw [place_of_given hd, arrange_of_placed without_ne hnew h]
  | cleared h => subst h; exact place_of_cleared hd
  | added h => exact place_of_added hd h
  | kept hne cut h => rw [place_of_kept hd hne cut, arrange_of_placed without_ne hnew h]

theorem exists_placedAt_of_place (hnew : ∀ e ∈ new, e.principalName = p) {result : AccessList}
    (h : acl.place p new order = .ok result) :
    ∃ d, directive? order = .ok d ∧ PlacedAt acl p new d result := by
  rcases hd : directive? order with e | d
  · rw [place_of_error hd] at h
    cases h
  refine ⟨d, rfl, ?_⟩
  obtain ⟨result', h'⟩ : ∃ result', PlacedAt acl p new d result' := by
    cases d with
    | none => exact exists_placedAt_none hnew
    | some d =>
      rcases exists_placed_or_misplaced without_ne hnew d with ⟨result', h'⟩ | ⟨e, h'⟩
      · exact ⟨result', .given h'⟩
      · rw [place_of_given hd, arrange_of_misplaced h'] at h
        cases h
  rw [place_of_placedAt hnew hd h'] at h
  cases h
  exact h'

theorem place_of_misplaced {d : OrderDirective} {e : AccessError}
    (hd : directive? order = .ok (some d)) (h : Misplaced (acl.without p ++ new) d e) :
    acl.place p new order = .error e := by
  rw [place_of_given hd, arrange_of_misplaced h]

/-- Entries find no place if the text gives no directive, or one that is refused. -/
theorem place_eq_error_iff (hnew : ∀ e ∈ new, e.principalName = p) {e : AccessError} :
    acl.place p new order = .error e ↔ directive? order = .error e ∨
      ∃ d, directive? order = .ok (some d) ∧ Misplaced (acl.without p ++ new) d e := by
  constructor
  · intro h
    rcases hd : directive? order with e' | d
    · rw [place_of_error hd] at h
      cases h
      exact .inl rfl
    cases d with
    | none =>
      obtain ⟨result, h'⟩ : ∃ result, PlacedAt acl p new none result := exists_placedAt_none hnew
      rw [place_of_placedAt hnew hd h'] at h
      cases h
    | some d =>
      have hothers : ∀ e ∈ acl.without p, e.principalName ≠ p := without_ne
      rcases exists_placed_or_misplaced hothers hnew d with ⟨result, h'⟩ | ⟨e', h'⟩
      · rw [place_of_placedAt hnew hd (.given h')] at h
        cases h
      · rw [place_of_misplaced hd h'] at h
        cases h
        exact .inr ⟨d, rfl, h'⟩
  · rintro (hd | ⟨d, hd, h⟩)
    · exact place_of_error hd
    · exact place_of_misplaced hd h

/-- **Where new entries go.** The list that placing returns is the one that `PlacedAt` describes,
and without a directive there is always one. -/
theorem place_eq_ok_iff (hnew : ∀ e ∈ new, e.principalName = p) :
    (∀ result, acl.place p new order = .ok result ↔
      ∃ d, directive? order = .ok d ∧ PlacedAt acl p new d result) ∧
    (directive? order = .ok none → ∃ result, acl.place p new order = .ok result) := by
  refine ⟨fun result => ⟨exists_placedAt_of_place hnew, ?_⟩, fun hd => ?_⟩
  · rintro ⟨d, hd, h⟩
    exact place_of_placedAt hnew hd h
  · obtain ⟨result, h⟩ : ∃ result, PlacedAt acl p new none result := exists_placedAt_none hnew
    exact ⟨result, place_of_placedAt hnew hd h⟩

end Replacing

/-- In a list whose principals alternate, entries go behind all those of the principal that the
directive names. -/
theorem place_after_interleaved :
    let entry (principal privilege : String) : Entry :=
      ⟨⟨principal, .user⟩, [privilege], true, [], []⟩
    (∀ e ∈ [entry "b" "read", entry "b" "write"], e.principalName = "b") ∧
      AccessList.place [entry "a" "read", entry "b" "all", entry "c" "read", entry "a" "write",
          entry "b" "read", entry "c" "write"] "b" [entry "b" "read", entry "b" "write"]
          (some "after a") =
        .ok [entry "a" "read", entry "c" "read", entry "a" "write", entry "b" "read",
          entry "b" "write", entry "c" "write"] := by
  intro entry
  refine ⟨by decide, ((place_eq_ok_iff (by decide)).1 _).2 ⟨some (.after "a"), by decide, ?_⟩⟩
  refine .given ?_
  exact .after (l := [entry "a" "read", entry "c" "read", entry "a" "write"])
    ⟨rfl, ⟨[entry "a" "read", entry "c" "read"], _, rfl, rfl⟩, by decide⟩

end ContentImport.AccessList
