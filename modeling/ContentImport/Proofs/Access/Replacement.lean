import ContentImport.Proofs.Access.Arrangement

/-!
# Updates without a directive

An update without a directive acts on the place of its principal alone, provided that the list is
contiguous.

* `replaced acl p new` is the list with `new` where the entries of `p` stood, or at the end if
  there were none.
* This is what placing without a directive makes of a contiguous list (`Contiguous.place_eq`), and
  the list stays contiguous (`Contiguous.replaced`).
* A second replacement by the same entries changes nothing (`replaced_replaced`), and those of two
  principals can be exchanged if one of them has entries (`Contiguous.replaced_comm`).
-/

namespace ContentImport.AccessList

variable {acl l r new more : AccessList} {p q : String} {order : Option String}

/-! ## Replacing entries where they stand -/

/-- The list with `new` in place of the entries of a principal; those that follow other entries
are dropped. -/
def replaced (acl : AccessList) (p : String) (new : AccessList) : AccessList :=
  acl.takeWhile (·.principalName != p) ++ new ++
    AccessList.without (acl.dropWhile (·.principalName != p)) p

theorem replaced_append_of_ne (hl : ∀ e ∈ l, e.principalName ≠ p) :
    replaced (l ++ r) p new = l ++ replaced r p new := by
  have hpos : ∀ e ∈ l, (e.principalName != p) = true := fun e he => by simpa using hl e he
  rw [replaced, List.takeWhile_append_of_pos hpos, List.dropWhile_append_of_pos hpos, replaced]
  simp only [List.append_assoc]

/-- A principal without entries gets its new ones at the end. -/
theorem replaced_of_ne (h : ∀ e ∈ acl, e.principalName ≠ p) :
    replaced acl p new = acl ++ new := by
  have happend : replaced (acl ++ []) p new = acl ++ replaced [] p new := replaced_append_of_ne h
  rw [List.append_nil] at happend
  rw [happend]
  simp [replaced, AccessList.without]

theorem CutBefore.replaced (cut : CutBefore acl p l r) :
    acl.replaced p new = l ++ new ++ AccessList.without r p := by
  obtain ⟨e, s, rfl, he⟩ := cut.first
  rw [cut.eq, replaced_append_of_ne cut.before, AccessList.replaced]
  simp [he]

/-- What follows a principal with entries is replaced apart from what stands before. -/
theorem replaced_append_of_mem (h : p ∈ l.principals) :
    replaced (l ++ r) p new = replaced l p new ++ AccessList.without r p := by
  obtain ⟨a, b, cut⟩ := exists_cutBefore h
  rw [cut.replaced, (cut.append r).replaced, without_append, List.append_assoc (a ++ new)]

/-- Entries in one block are replaced where the block stands. -/
theorem replaced_block {a o b : AccessList} (ha : ∀ e ∈ a, e.principalName ≠ p)
    (ho : ∀ e ∈ o, e.principalName = p) (hb : ∀ e ∈ b, e.principalName ≠ p) (hne : o ≠ []) :
    replaced (a ++ (o ++ b)) p new = a ++ new ++ b := by
  obtain ⟨e, s, rfl⟩ := List.exists_cons_of_ne_nil hne
  have cut : CutBefore (a ++ (e :: s ++ b)) p a (e :: s ++ b) :=
    ⟨rfl, ⟨e, s ++ b, rfl, ho e (by simp)⟩, ha⟩
  rw [cut.replaced, without_append, without_eq_nil ho, without_eq_self hb, List.nil_append]

/-- What stands around the place of a principal, whatever is put there. -/
theorem exists_replaced_eq (acl : AccessList) (p : String) : ∃ a b,
    (∀ e ∈ a, e.principalName ≠ p) ∧ (∀ e ∈ b, e.principalName ≠ p) ∧
      acl.without p = a ++ b ∧ ∀ new, acl.replaced p new = a ++ new ++ b := by
  have hhead : ∀ e ∈ acl.takeWhile (·.principalName != p), e.principalName ≠ p := by
    intro e he
    simpa using List.all_eq_true.1 List.all_takeWhile e he
  refine ⟨_, AccessList.without (acl.dropWhile (·.principalName != p)) p, hhead, without_ne, ?_,
    fun _ => rfl⟩
  calc acl.without p
      = AccessList.without (acl.takeWhile (·.principalName != p) ++
          acl.dropWhile (·.principalName != p)) p := by rw [List.takeWhile_append_dropWhile]
    _ = _ := by rw [without_append, without_eq_self hhead]

/-- Replacing the entries of a principal leaves those of the others. -/
theorem without_replaced (hnew : ∀ e ∈ new, e.principalName = p) :
    (acl.replaced p new).without p = acl.without p := by
  obtain ⟨a, b, ha, hb, hwithout, hreplaced⟩ := exists_replaced_eq acl p
  rw [hreplaced, hwithout, without_append, without_append, without_eq_self ha,
    without_eq_nil hnew, without_eq_self hb, List.append_nil]

/-- **A second replacement by the same entries changes nothing.** -/
theorem replaced_replaced (hnew : ∀ e ∈ new, e.principalName = p) :
    (acl.replaced p new).replaced p new = acl.replaced p new := by
  obtain ⟨a, b, ha, hb, -, hreplaced⟩ := exists_replaced_eq acl p
  rw [hreplaced]
  by_cases hne : new = []
  · subst hne
    rw [List.append_nil, replaced_of_ne (List.forall_mem_append.2 ⟨ha, hb⟩), List.append_nil]
  · rw [List.append_assoc, replaced_block ha hnew hb hne, List.append_assoc]

/-! ## Placing without a directive -/

/-- The principal of the first entry of a list that follows entries of others only is the next
one of the whole. -/
theorem principals_append_cons {f : Entry} {s : AccessList}
    (hf : ∀ e ∈ l, e.principalName ≠ f.principalName) :
    (AccessList.principals (l ++ f :: s))[l.principals.length]? = some f.principalName := by
  have hnew : f.principalName ∉ l.map Entry.principalName := by
    intro hmem
    obtain ⟨e, he, hname⟩ := List.mem_map.1 hmem
    exact hf e he hname
  rw [principals, principals, List.map_append, Composition.distinct_append,
    List.getElem?_append_right (Nat.le_refl _), Nat.sub_self, List.map_cons, Composition.distinct]
  rw [List.filter_cons_of_pos (by simpa using hnew)]
  rfl

/-- **Without a directive, entries are placed where the principal stood.** The rank of the
principal among the others leads back to its place, since none of them stands on both sides. -/
theorem Contiguous.place_eq (h : Contiguous acl) (hnew : ∀ e ∈ new, e.principalName = p)
    (horder : directive? order = .ok none) :
    acl.place p new order = .ok (acl.replaced p new) := by
  apply place_of_placedAt hnew horder
  by_cases hp : ∀ e ∈ acl, e.principalName ≠ p
  · have hadded : PlacedAt acl p new none (acl.without p ++ new) := .added hp
    rwa [without_eq_self hp, ← replaced_of_ne hp] at hadded
  push Not at hp
  obtain ⟨l, r, cut⟩ := exists_cutBefore (mem_principals.2 hp)
  have hothers : acl.without p = l ++ AccessList.without r p := by
    rw [cut.eq, without_append, without_eq_self cut.before]
  by_cases hne : new = []
  · have hcleared : PlacedAt acl p new none (acl.without p) := .cleared hne
    rwa [hothers, ← List.append_nil l, ← hne, ← cut.replaced] at hcleared
  refine .kept hne cut ?_
  rw [cut.replaced, hothers]
  cases hr : AccessList.without r p with
  | nil =>
    have hend : Placed p l new (.index l.principals.length) (l ++ new) := .indexEnd hne
    rwa [List.append_nil, List.append_nil]
  | cons f s =>
    have hf : f ∈ r ∧ f.principalName ≠ p := mem_without.1 (hr ▸ List.mem_cons_self)
    -- a principal on both sides of the cut would be the one that is replaced
    have hl : ∀ e ∈ l, e.principalName ≠ f.principalName := by
      intro e he hef
      exact h.seam_of_cutBefore cut e he f hf.1 hef
    have next : CutBefore (l ++ f :: s) f.principalName l (f :: s) :=
      ⟨rfl, ⟨f, s, rfl, rfl⟩, hl⟩
    exact .index (principals_append_cons hl) next

theorem Contiguous.replaced (h : Contiguous acl) (hnew : ∀ e ∈ new, e.principalName = p) :
    Contiguous (acl.replaced p new) := by
  have hplace : acl.place p new none = .ok (acl.replaced p new) := h.place_eq hnew rfl
  obtain ⟨d, -, hd⟩ := exists_placedAt_of_place hnew hplace
  obtain ⟨l, r, hlr, hresult, seam⟩ := h.exists_seam_of_placedAt hd
  rw [hresult]
  exact (hlr ▸ h.without p).insert seam hnew (hlr ▸ without_ne)

/-! ## Updates of two principals -/

/-- **Replacements for two principals can be exchanged** if one of them has entries. -/
theorem Contiguous.replaced_comm (h : Contiguous acl) (hpq : p ≠ q) (hp : p ∈ acl.principals)
    (hnew : ∀ e ∈ new, e.principalName = p) (hmore : ∀ e ∈ more, e.principalName = q) :
    (acl.replaced p new).replaced q more = (acl.replaced q more).replaced p new := by
  obtain ⟨a, o, b, rfl, ha, ho, hb⟩ := contiguous_iff_split.1 h p
  have hne : o ≠ [] := by
    rintro rfl
    obtain ⟨e, he, hep⟩ := mem_principals.1 hp
    exact (List.forall_mem_append.2 ⟨ha, hb⟩ : ∀ e ∈ a ++ b, e.principalName ≠ p) e he hep
  have hoq : ∀ e ∈ o, e.principalName ≠ q := fun e he heq => hpq ((ho e he).symm.trans heq)
  have hnewq : ∀ e ∈ new, e.principalName ≠ q := fun e he heq =>
    hpq ((hnew e he).symm.trans heq)
  have hmorep : ∀ e ∈ more, e.principalName ≠ p := fun e he hep =>
    hpq (hep.symm.trans (hmore e he))
  -- replacing the entries of `q` brings none of `p`
  have hkeep : ∀ {m : AccessList}, (∀ e ∈ m, e.principalName ≠ p) →
      ∀ e ∈ m.replaced q more, e.principalName ≠ p := by
    intro m hm e he
    by_cases heq : e.principalName = q
    · exact fun hep => hpq (hep.symm.trans heq)
    · have hwithout : e ∈ m.without q := by
        rw [← without_replaced hmore]
        exact mem_without.2 ⟨he, heq⟩
      exact hm e (mem_without.1 hwithout).1
  rw [replaced_block ha ho hb hne]
  by_cases hq : q ∈ AccessList.principals a
  · -- the entries of `q` stand before those of `p`
    have hbq : ∀ e ∈ b, e.principalName ≠ q := by
      intro f hf hfq
      obtain ⟨e, he, heq⟩ := mem_principals.1 hq
      have hseam : Seam a (o ++ b) := by
        obtain ⟨g, s, rfl⟩ := List.exists_cons_of_ne_nil hne
        exact h.seam_of_cutBefore ⟨rfl, ⟨g, s ++ b, rfl, ho g (by simp)⟩, ha⟩
      exact hseam e he f (List.mem_append_right _ hf) (heq.trans hfq.symm)
    have hnewb : ∀ e ∈ new ++ b, e.principalName ≠ q := List.forall_mem_append.2 ⟨hnewq, hbq⟩
    have hob : ∀ e ∈ o ++ b, e.principalName ≠ q := List.forall_mem_append.2 ⟨hoq, hbq⟩
    rw [List.append_assoc, replaced_append_of_mem hq, without_eq_self hnewb,
      replaced_append_of_mem hq, without_eq_self hob, replaced_block (hkeep ha) ho hb hne,
      List.append_assoc]
  · -- the entries of `q`, if there are any, follow those of `p`
    have haq : ∀ e ∈ a, e.principalName ≠ q := fun e he heq =>
      hq (mem_principals.2 ⟨e, he, heq⟩)
    have han : ∀ e ∈ a ++ new, e.principalName ≠ q := List.forall_mem_append.2 ⟨haq, hnewq⟩
    rw [replaced_append_of_ne han, replaced_append_of_ne haq, replaced_append_of_ne hoq,
      replaced_block ha ho (hkeep hb) hne]

/-- **Updates without a directive are local.** In a contiguous list one of a principal with entries
puts the new entries exactly where the old ones stood, and one that is repeated changes nothing.
Two such updates of different principals, of which one has entries, lead to the same list in either
order. -/
theorem Contiguous.place_local (h : Contiguous acl) (hnew : ∀ e ∈ new, e.principalName = p)
    (horder : directive? order = .ok none) :
    (p ∈ acl.principals → ∃ a b, acl = a ++ acl.of p ++ b ∧
      acl.place p new order = .ok (a ++ new ++ b)) ∧
    (∃ acl', acl.place p new order = .ok acl' ∧ acl'.place p new order = .ok acl') ∧
    ∀ q more order', q ≠ p → (∀ e ∈ more, e.principalName = q) → directive? order' = .ok none →
      p ∈ acl.principals ∨ q ∈ acl.principals →
      ∃ byP byQ result,
        acl.place p new order = .ok byP ∧ byP.place q more order' = .ok result ∧
        acl.place q more order' = .ok byQ ∧ byQ.place p new order = .ok result := by
  refine ⟨fun hp => ?_, ?_, ?_⟩
  · obtain ⟨a, o, b, rfl, ha, ho, hb⟩ := contiguous_iff_split.1 h p
    have hof : AccessList.of (a ++ (o ++ b)) p = o := by
      rw [of_append, of_append, of_eq_nil ha, of_eq_self ho, of_eq_nil hb, List.append_nil,
        List.nil_append]
    have hne : o ≠ [] := by
      rintro rfl
      obtain ⟨e, he, hep⟩ := mem_principals.1 hp
      exact List.not_mem_nil (hof ▸ mem_of.2 ⟨he, hep⟩)
    refine ⟨a, b, by rw [hof, List.append_assoc], ?_⟩
    rw [h.place_eq hnew horder, replaced_block ha ho hb hne]
  · refine ⟨acl.replaced p new, h.place_eq hnew horder, ?_⟩
    rw [(h.replaced hnew).place_eq hnew horder, replaced_replaced hnew]
  · intro q more order' hqp hmore horder' hpresent
    have hcomm : (acl.replaced p new).replaced q more = (acl.replaced q more).replaced p new := by
      rcases hpresent with hp | hq
      · exact h.replaced_comm hqp.symm hp hnew hmore
      · exact (h.replaced_comm hqp hq hmore hnew).symm
    refine ⟨acl.replaced p new, acl.replaced q more, _, h.place_eq hnew horder,
      (h.replaced hnew).place_eq hmore horder', h.place_eq hmore horder', ?_⟩
    rw [hcomm]
    exact (h.replaced hmore).place_eq hnew horder

/-- The first principal is cleared and a new one added, in both orders. -/
theorem place_local_cleared :
    let entry (principal privilege : String) : Entry :=
      ⟨⟨principal, .user⟩, [privilege], true, [], []⟩
    let acl := [entry "a" "read", entry "a" "write", entry "b" "read"]
    let added := [entry "c" "all"]
    Contiguous acl ∧
      AccessList.place acl "a" [] (some "") = .ok [entry "b" "read"] ∧
      AccessList.place acl "c" added none = .ok (acl ++ added) ∧
      AccessList.place [entry "b" "read"] "c" added none =
        AccessList.place (acl ++ added) "a" [] (some "") := by
  intro entry acl added
  have hb : Contiguous ([] ++ [entry "b" "read"] ++ []) :=
    contiguous_nil.insert (p := "b") (by simp [Seam]) (by decide) (by simp)
  have hinserted : Contiguous ([] ++ [entry "a" "read", entry "a" "write"] ++ [entry "b" "read"]) :=
    Contiguous.insert (p := "a") hb (by simp [Seam]) (by decide) (by decide)
  have hacl : Contiguous acl := hinserted
  have hnone : ∀ e ∈ ([] : AccessList), e.principalName = "a" := List.forall_mem_nil _
  have horder : directive? (some "") = .ok none := rfl
  have hcleared : AccessList.place acl "a" [] (some "") = .ok [entry "b" "read"] := by decide
  have hadded : AccessList.place acl "c" added none = .ok (acl ++ added) := by decide
  obtain ⟨-, -, hcomm⟩ := hacl.place_local hnone horder
  obtain ⟨byA, byC, result, hA, hAC, hC, hCA⟩ :=
    hcomm "c" added none (by decide) (by decide) rfl (.inl (by decide))
  rw [hcleared] at hA
  rw [hadded] at hC
  cases hA
  cases hC
  exact ⟨hacl, hcleared, hadded, hAC.trans hCA.symm⟩

end ContentImport.AccessList
