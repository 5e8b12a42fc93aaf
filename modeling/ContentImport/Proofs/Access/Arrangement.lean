import ContentImport.Proofs.Access.Composition
import ContentImport.Proofs.Access.Placement
import ContentImport.Repository.Registry

/-!
# Arranged access-control lists

The lists that come from updates alone, without a list ever being stored as a whole.

* `Contiguous` lists keep the entries of every principal together. A cut of such a list is a `Seam`
  if no principal has entries on both sides of it; what is put in at a seam leaves the list
  contiguous (`Contiguous.insert`).
* Every directive points at a seam (`Contiguous.exists_seam`).
* `Block` says what holds of the entries of one principal, and a list is `Arranged` if it is
  contiguous and made of such blocks. Placing a block keeps a list arranged
  (`Arranged.of_placedAt`).
-/

namespace ContentImport.AccessList

/-! ## Contiguous lists -/

/-- The entries of each principal follow one another. -/
def Contiguous (acl : AccessList) : Prop := ∀ p, acl.of p <:+: acl

/-- No principal has entries both in `l` and in `r`. -/
def Seam (l r : AccessList) : Prop := ∀ e ∈ l, ∀ f ∈ r, e.principalName ≠ f.principalName

variable {acl l r new : AccessList} {p : String}

/-- A contiguous list falls, for each principal, into its entries and what is around them. -/
theorem contiguous_iff_split : Contiguous acl ↔ ∀ p, ∃ a o b, acl = a ++ (o ++ b) ∧
    (∀ e ∈ a, e.principalName ≠ p) ∧ (∀ e ∈ o, e.principalName = p) ∧
      ∀ e ∈ b, e.principalName ≠ p := by
  refine forall_congr' fun p => ⟨?_, ?_⟩
  · rintro ⟨a, b, hab⟩
    have hlength := congrArg (fun l => (AccessList.of l p).length) hab
    have ho : ∀ e ∈ acl.of p, e.principalName = p := fun e he => (mem_of.1 he).2
    simp only [of_append, List.length_append, of_eq_self ho] at hlength
    have ha : AccessList.of a p = [] := List.length_eq_zero_iff.1 (by omega)
    have hb : AccessList.of b p = [] := List.length_eq_zero_iff.1 (by omega)
    refine ⟨a, acl.of p, b, by rw [← List.append_assoc, hab], fun e he hp => ?_, ho,
      fun e he hp => ?_⟩
    · exact List.not_mem_nil (ha ▸ mem_of.2 ⟨he, hp⟩)
    · exact List.not_mem_nil (hb ▸ mem_of.2 ⟨he, hp⟩)
  · rintro ⟨a, o, b, rfl, ha, ho, hb⟩
    rw [of_append, of_append, of_eq_nil ha, of_eq_self ho, of_eq_nil hb, List.append_nil]
    exact ⟨a, b, by simp⟩

theorem contiguous_nil : Contiguous [] := fun _ => List.infix_rfl

/-- The entries of a principal that lie on both sides of a cut reach up to it. -/
theorem Contiguous.exists_of_cut (h : Contiguous (l ++ r)) {e f : Entry} (he : e ∈ l)
    (hf : f ∈ r) (hef : e.principalName = f.principalName) :
    (∃ s g, l = s ++ [g] ∧ g.principalName = e.principalName) ∧
      ∃ g s, r = g :: s ∧ g.principalName = e.principalName := by
  obtain ⟨a, o, b, hab, ha, ho, hb⟩ := contiguous_iff_split.1 h e.principalName
  rcases List.append_eq_append_iff.1 hab with ⟨c, rfl, -⟩ | ⟨c, rfl, hcr⟩
  · exact absurd rfl (ha e (List.mem_append_left _ he))
  have hec : e ∈ c := (List.mem_append.1 he).resolve_left fun he => ha e he rfl
  rcases List.append_eq_append_iff.1 hcr with ⟨d, rfl, rfl⟩ | ⟨d, rfl, rfl⟩
  · exact absurd hef.symm (hb f (List.mem_append_right _ hf))
  have hfd : f ∈ d := (List.mem_append.1 hf).resolve_right fun hf => hb f hf hef.symm
  obtain ⟨s, g, rfl⟩ := (List.eq_nil_or_concat c).resolve_left (List.ne_nil_of_mem hec)
  obtain ⟨g', s', rfl⟩ := List.exists_cons_of_ne_nil (List.ne_nil_of_mem hfd)
  exact ⟨⟨a ++ s, g, by simp, ho g (by simp)⟩, g', s' ++ b, rfl, ho g' (by simp)⟩

/-- Leaving out a principal keeps a list contiguous. -/
theorem Contiguous.without (h : Contiguous acl) (p : String) : Contiguous (acl.without p) := by
  refine contiguous_iff_split.2 fun q => ?_
  obtain ⟨a, o, b, rfl, ha, ho, hb⟩ := contiguous_iff_split.1 h q
  refine ⟨AccessList.without a p, AccessList.without o p, AccessList.without b p,
    by rw [without_append, without_append], ?_, ?_, ?_⟩
  · exact fun e he => ha e (mem_without.1 he).1
  · exact fun e he => ho e (mem_without.1 he).1
  · exact fun e he => hb e (mem_without.1 he).1

/-- **A block that is put in at a seam leaves the list contiguous.** -/
theorem Contiguous.insert (h : Contiguous (l ++ r)) (seam : Seam l r)
    (hnew : ∀ e ∈ new, e.principalName = p) (hp : ∀ e ∈ l ++ r, e.principalName ≠ p) :
    Contiguous (l ++ new ++ r) := by
  refine contiguous_iff_split.2 fun q => ?_
  by_cases hq : q = p
  · subst hq
    obtain ⟨hl, hr⟩ := List.forall_mem_append.1 hp
    exact ⟨l, new, r, List.append_assoc .., hl, hnew, hr⟩
  have hne : ∀ e ∈ new, e.principalName ≠ q := fun e he heq => hq (heq.symm.trans (hnew e he))
  obtain ⟨a, o, b, hab, ha, ho, hb⟩ := contiguous_iff_split.1 h q
  rcases List.append_eq_append_iff.1 hab with ⟨c, rfl, rfl⟩ | ⟨c, rfl, hcr⟩
  · -- the entries of `q` follow the seam
    obtain ⟨hl, hc⟩ := List.forall_mem_append.1 ha
    refine ⟨l ++ new ++ c, o, b, by simp, ?_, ho, hb⟩
    exact List.forall_mem_append.2 ⟨List.forall_mem_append.2 ⟨hl, hne⟩, hc⟩
  rcases List.append_eq_append_iff.1 hcr with ⟨d, rfl, rfl⟩ | ⟨d, rfl, rfl⟩
  · -- the entries of `q` stand before the seam
    obtain ⟨hd, hr⟩ := List.forall_mem_append.1 hb
    refine ⟨a, o, d ++ new ++ r, by simp, ha, ho, ?_⟩
    exact List.forall_mem_append.2 ⟨List.forall_mem_append.2 ⟨hd, hne⟩, hr⟩
  · -- the entries of `q` touch the seam, which lies at one of their ends
    obtain ⟨hc, hd⟩ := List.forall_mem_append.1 ho
    rcases c with _ | ⟨e, c⟩
    · refine ⟨a ++ new, d, b, by simp, ?_, hd, hb⟩
      exact List.forall_mem_append.2 ⟨ha, hne⟩
    rcases d with _ | ⟨f, d⟩
    · refine ⟨a, e :: c, new ++ b, by simp, ha, hc, ?_⟩
      exact List.forall_mem_append.2 ⟨hne, hb⟩
    · have := seam e (by simp) f (by simp)
      rw [hc e (by simp), hd f (by simp)] at this
      exact absurd rfl this

/-! ## Seams -/

theorem Contiguous.seam_of_cutBefore {x : String} (h : Contiguous acl)
    (cut : CutBefore acl x l r) : Seam l r := by
  intro e he f hf hef
  obtain ⟨rfl, ⟨g, s, rfl, hg⟩, hl⟩ := cut
  obtain ⟨-, g', s', hr, hg'⟩ := h.exists_of_cut he hf hef
  obtain ⟨rfl, -⟩ := List.cons_eq_cons.1 hr
  exact hl e he (hg'.symm.trans hg)

theorem Contiguous.seam_of_cutAfter {x : String} (h : Contiguous acl)
    (cut : CutAfter acl x l r) : Seam l r := by
  intro e he f hf hef
  obtain ⟨rfl, ⟨s, g, rfl, hg⟩, hr⟩ := cut
  obtain ⟨⟨s', g', hl, hg'⟩, -⟩ := h.exists_of_cut he hf hef
  obtain rfl : g = g' := by simpa using congrArg List.getLast? hl
  exact hr f hf (hef.symm.trans (hg'.symm.trans hg))

/-- **A directive points at a seam** of a contiguous list. -/
theorem Contiguous.exists_seam {others result : AccessList} (h : Contiguous others)
    {d : OrderDirective} (hd : Placed p others new d result) :
    ∃ l r, others = l ++ r ∧ result = l ++ new ++ r ∧ Seam l r := by
  have atEnd : ∃ l r, others = l ++ r ∧ others ++ new = l ++ new ++ r ∧ Seam l r :=
    ⟨others, [], by simp, by simp, by simp [Seam]⟩
  cases hd with
  | first => exact ⟨[], others, rfl, rfl, by simp [Seam]⟩
  | last => exact atEnd
  | before cut => exact ⟨_, _, cut.eq, rfl, h.seam_of_cutBefore cut⟩
  | after cut => exact ⟨_, _, cut.eq, rfl, h.seam_of_cutAfter cut⟩
  | beforeItself => exact atEnd
  | afterItself => exact atEnd
  | index _ cut => exact ⟨_, _, cut.eq, rfl, h.seam_of_cutBefore cut⟩
  | indexEnd => exact atEnd

theorem Contiguous.exists_seam_of_placedAt {result : AccessList} (h : Contiguous acl)
    {d : Option OrderDirective} (hd : PlacedAt acl p new d result) :
    ∃ l r, acl.without p = l ++ r ∧ result = l ++ new ++ r ∧ Seam l r := by
  have h' := h.without p
  cases hd with
  | given hd => exact h'.exists_seam hd
  | cleared hnil => exact ⟨acl.without p, [], by simp, by simp [hnil], by simp [Seam]⟩
  | added => exact ⟨acl.without p, [], by simp, by simp, by simp [Seam]⟩
  | kept _ _ hd => exact h'.exists_seam hd

/-! ## Blocks -/

/-- What holds of entries that were composed for one principal. -/
structure Block (registry : Registry) (es : List Entry) : Prop where
  onePrincipal : ∀ e ∈ es, ∀ f ∈ es, e.principal = f.principal
  deniesFirst : es.Pairwise fun e f => e.isAllow = true → f.isAllow = true
  byDepth : es.Pairwise fun e f => e.isAllow = f.isAllow →
    Composition.depthLe (e.depth registry.depths) (f.depth registry.depths) = true
  distinct : ∀ isAllow, ((es.filter (·.isAllow == isAllow)).flatMap Entry.privileges).Nodup
  registered : ∀ e ∈ es, ∀ n ∈ e.privileges, registry.privileges.contains n = true

/-- A contiguous list in which the entries of each principal form a block. -/
structure Arranged (registry : Registry) (acl : AccessList) : Prop where
  contiguous : Contiguous acl
  block : ∀ p, Block registry (acl.of p)

variable {registry : Registry}

theorem block_nil : Block registry [] where
  onePrincipal := by simp
  deniesFirst := List.Pairwise.nil
  byDepth := List.Pairwise.nil
  distinct := by simp
  registered := by simp

theorem arranged_nil : Arranged registry [] where
  contiguous := contiguous_nil
  block := fun _ => block_nil

/-- **Placing a block keeps a list arranged.** -/
theorem Arranged.of_placedAt {result : AccessList} (h : Arranged registry acl)
    (hnew : ∀ e ∈ new, e.principalName = p) (block : Block registry new)
    {d : Option OrderDirective} (hd : PlacedAt acl p new d result) : Arranged registry result := by
  obtain ⟨l, r, hlr, rfl, seam⟩ := h.contiguous.exists_seam_of_placedAt hd
  have hothers : ∀ e ∈ l ++ r, e.principalName ≠ p := hlr ▸ without_ne
  refine ⟨(hlr ▸ h.contiguous.without p).insert seam hnew hothers, fun q => ?_⟩
  by_cases hq : q = p
  · subst hq
    obtain ⟨hl, hr⟩ := List.forall_mem_append.1 hothers
    rwa [of_append, of_append, of_eq_nil hl, of_eq_nil hr, of_eq_self hnew, List.nil_append,
      List.append_nil]
  · have hnone : AccessList.of new q = [] :=
      of_eq_nil fun e he heq => hq (heq.symm.trans (hnew e he))
    rw [of_append, of_append, hnone, List.append_nil, ← of_append, ← hlr, of_without hq]
    exact h.block q

end ContentImport.AccessList
