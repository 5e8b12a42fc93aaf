import ContentImport.Proofs.Repository.Counting

/-!
# The order of definitions

Lists with the same definitions of every name, in the same order, may list different names in
different orders.

* A list gives a hierarchy of the definitions that count, and no more than that decides whether it
  gives one at all and how deep its privileges lie (`Follows.chainLengths_eq`).
* So two such lists give the same hierarchy just if the same definitions count in both
  (`ofDefinitions_rearranged`). They do if no name is defined twice (`ofDefinitions_perm`), and may
  not if one is (`order_matters`).
-/

namespace ContentImport.Registry

open Privilege
open Relation (TransGen)

variable {definitions definitions' : List PrivilegeDefinition} {d d' : PrivilegeDefinition}
  {n m : String} {built : Table Privilege} {root p : Privilege} {k : Nat}

/-! ## Chains and walks -/

namespace Follows

variable (h : Follows definitions built) (hroot : built.get? root.name = some root)

include h hroot

theorem walk_of_isChain (hchain : IsChain root k p) :
    Walk (Leads definitions) root.name k p.name ∧ built.get? p.name = some p := by
  induction hchain with
  | refl => exact ⟨.refl, hroot⟩
  | @tail k p q _ hq ih =>
    obtain ⟨hwalk, hp⟩ := ih
    obtain ⟨d, hd, hof⟩ := h.isOf _ _ hp
    have hstep : Leads definitions p.name q.name :=
      ⟨d, hd, hof.aggregates ▸ List.mem_map_of_mem hq⟩
    exact ⟨hwalk.tail hstep, h.closed.declared _ _ hp q hq⟩

theorem exists_isChain_of_walk (hwalk : Walk (Leads definitions) root.name k n) :
    ∃ p, p.name = n ∧ built.get? n = some p ∧ IsChain root k p := by
  induction hwalk with
  | refl => exact ⟨root, rfl, hroot, .refl⟩
  | tail _ hstep ih =>
    obtain ⟨p, -, hp, hchain⟩ := ih
    obtain ⟨q, hpq, hq⟩ := h.exists_declares hp hstep
    exact ⟨q, h.closed.name _ _ hq, hq, hchain.tail hpq⟩

/-- **The chains of a hierarchy are the walks along the definitions that count.** -/
theorem chainLengths_eq (n : String) :
    root.chainLengths n = {k | Walk (Leads definitions) root.name k n} := by
  ext k
  constructor
  · rintro ⟨p, rfl, hchain⟩
    exact (h.walk_of_isChain hroot hchain).1
  · intro hwalk
    obtain ⟨p, hname, -, hchain⟩ := h.exists_isChain_of_walk hroot hwalk
    exact ⟨p, hname, hchain⟩

end Follows

/-! ## Rearranged definitions -/

/-- Every name has the same definitions in the same order. -/
def IsRearranged (definitions definitions' : List PrivilegeDefinition) : Prop :=
  ∀ n, (definitions.filter fun d => d.name == n) = definitions'.filter fun d => d.name == n

/-- The first and the last definition of a name have the same aggregates. -/
def Agree (definitions : List PrivilegeDefinition) (n : String) : Prop :=
  (first? definitions n).map (·.aggregates) = (last? definitions n).map (·.aggregates)

/-- Either definition of a name would do, or the same one counts in both lists. -/
def CountAlike (definitions definitions' : List PrivilegeDefinition) (n : String) : Prop :=
  Agree definitions n ∨ (MetEarly definitions n ↔ MetEarly definitions' n)

theorem agree_of_forall (h : ∀ d ∈ definitions, ∀ e ∈ definitions, d.name = n → e.name = n →
    d.aggregates = e.aggregates) : Agree definitions n := by
  have hsame : ∀ d ∈ definitions.filter (fun d => d.name == n),
      ∀ e ∈ definitions.filter (fun d => d.name == n), d.aggregates = e.aggregates := by
    intro d hd e he
    rw [List.mem_filter] at hd he
    exact h d hd.1 e he.1 (eq_of_beq hd.2) (eq_of_beq he.2)
  rw [Agree, first?_eq, last?_eq]
  cases hl : definitions.filter fun d => d.name == n with
  | nil => rfl
  | cons d l =>
    rw [hl] at hsame
    rw [List.head?_cons, List.getLast?_eq_some_getLast (List.cons_ne_nil d l), Option.map_some,
      Option.map_some]
    exact congrArg some (hsame d List.mem_cons_self _ (List.getLast_mem _))

theorem agree_of_not_isDefined (hn : ¬ IsDefined definitions n) : Agree definitions n :=
  agree_of_forall fun d hd _ _ hname => absurd ⟨d, hd, hname⟩ hn

/-- Definitions of distinct names agree. -/
theorem agree_of_nodup (hnames : (definitions.map (·.name)).Nodup) (n : String) :
    Agree definitions n := by
  refine agree_of_forall fun d hd e he hname hname' => ?_
  rw [List.inj_on_of_nodup_map hnames hd he (hname.trans hname'.symm)]

namespace IsRearranged

/-- Such lists are rearrangements of each other. -/
theorem perm (h : IsRearranged definitions definitions') : definitions.Perm definitions' := by
  classical
  rw [List.perm_iff_count]
  intro d
  have hcount : ∀ l : List PrivilegeDefinition,
      (l.filter fun e => e.name == d.name).count d = l.count d :=
    fun l => List.count_filter (beq_self_eq_true d.name)
  rw [← hcount, h d.name, hcount]

/-- Any rearrangement of definitions of distinct names is one. -/
theorem of_perm (hnames : (definitions.map (·.name)).Nodup)
    (h : definitions.Perm definitions') : IsRearranged definitions definitions' := by
  intro n
  have hrelated : ∀ l : List PrivilegeDefinition, l.Pairwise fun _ _ => True :=
    fun _ => List.pairwise_of_forall fun _ _ => trivial
  refine List.Perm.eq_of_pairwise (fun d e hd he _ _ => ?_) (hrelated _) (hrelated _) (h.filter _)
  rw [List.mem_filter] at hd he
  refine List.inj_on_of_nodup_map hnames hd.1 (h.mem_iff.2 he.1) ?_
  rw [eq_of_beq hd.2, eq_of_beq he.2]

theorem first?_eq (h : IsRearranged definitions definitions') (n : String) :
    first? definitions n = first? definitions' n := by
  rw [Registry.first?_eq, h n, ← Registry.first?_eq]

theorem last?_eq (h : IsRearranged definitions definitions') (n : String) :
    last? definitions n = last? definitions' n := by
  rw [Registry.last?_eq, h n, ← Registry.last?_eq]

theorem isDefined_iff (h : IsRearranged definitions definitions') :
    IsDefined definitions n ↔ IsDefined definitions' n := by
  simp only [IsDefined, h.perm.mem_iff]

/-- What counts in one list has the aggregates of what counts in the other just if the name counts
alike in both. -/
theorem aggregates_eq_iff (h : IsRearranged definitions definitions')
    (hd : Counts definitions n d) (hd' : Counts definitions' n d') :
    d.aggregates = d'.aggregates ↔ CountAlike definitions definitions' n := by
  have hfirst := h.first?_eq n
  have hlast := h.last?_eq n
  -- if different ones count, they are the first and the last one of either list
  rcases hd with ⟨hmet, hd⟩ | ⟨hmet, hd⟩ <;> rcases hd' with ⟨hmet', hd'⟩ | ⟨hmet', hd'⟩
  · rw [hlast, hd'] at hd
    obtain rfl := Option.some.inj hd
    exact iff_of_true rfl (.inr (iff_of_true hmet hmet'))
  · simp [CountAlike, Agree, hfirst, hd, hd', hmet, hmet', eq_comm]
  · simp [CountAlike, Agree, hlast, hd, hd', hmet, hmet']
  · rw [hfirst, hd'] at hd
    obtain rfl := Option.some.inj hd
    exact iff_of_true rfl (.inr (iff_of_false hmet hmet'))

theorem leads_iff (h : IsRearranged definitions definitions')
    (hcount : ∀ n, CountAlike definitions definitions' n) :
    Leads definitions n m ↔ Leads definitions' n m := by
  constructor
  · rintro ⟨d, hd, hm⟩
    obtain ⟨d', hd'⟩ := exists_counts (h.isDefined_iff.1 ⟨d, hd.mem⟩)
    exact ⟨d', hd', (h.aggregates_eq_iff hd hd').2 (hcount n) ▸ hm⟩
  · rintro ⟨d', hd', hm⟩
    obtain ⟨d, hd⟩ := exists_counts (h.isDefined_iff.2 ⟨d', hd'.mem⟩)
    exact ⟨d, hd, (h.aggregates_eq_iff hd hd').2 (hcount n) ▸ hm⟩

theorem leads_eq (h : IsRearranged definitions definitions')
    (hcount : ∀ n, CountAlike definitions definitions' n) :
    Leads definitions = Leads definitions' := by
  ext n m
  exact h.leads_iff hcount

end IsRearranged

/-! ## Registries -/

/-- The names of the privileges that a privilege declares. -/
def declaredNames (r : Registry) (n : String) : Except AccessError (List String) :=
  (r.find n).map fun p => p.aggregates.map Privilege.name

variable {r r' : Registry} {top : String}

/-- A registry has what the definitions that count say, and nothing else. -/
theorem declaredNames_eq_ok_iff (h : ofDefinitions top definitions = .ok r) {names : List String} :
    r.declaredNames n = .ok names ↔ ∃ d, Counts definitions n d ∧ d.aggregates = names := by
  obtain ⟨built, hfollows, hlisted, -, hget⟩ := exists_follows_of_ofDefinitions h
  have hfind : ∀ p, built.get? n = some p → r.find n = .ok p := fun p hp =>
    find_eq_ok_iff.2 ((hget n).trans hp)
  constructor
  · intro hnames
    rw [declaredNames] at hnames
    cases hp : r.find n with
    | error e => rw [hp] at hnames; cases hnames
    | ok p =>
      rw [hp] at hnames
      obtain ⟨d, hd, hof⟩ := hfollows.isOf n p ((hget n).symm.trans (find_eq_ok_iff.1 hp))
      exact ⟨d, hd, hof.aggregates.symm.trans (Except.ok.inj hnames)⟩
  · rintro ⟨d, hd, rfl⟩
    obtain ⟨hmem, rfl⟩ := hd.mem
    obtain ⟨p, hp⟩ := hlisted d hmem
    obtain ⟨e, he, hof⟩ := hfollows.isOf _ p hp
    obtain rfl := hd.unique he
    rw [declaredNames, hfind p hp, Except.map, hof.aggregates]

theorem declaredNames_of_not_isDefined (h : ofDefinitions top definitions = .ok r)
    (hn : ¬ IsDefined definitions n) : r.declaredNames n = .error (.privilegeNotFound n) := by
  cases hnames : r.declaredNames n with
  | ok names =>
    obtain ⟨d, hd, -⟩ := (declaredNames_eq_ok_iff h).1 hnames
    exact absurd ⟨d, hd.mem⟩ hn
  | error e =>
    rw [declaredNames] at hnames
    cases hp : r.find n with
    | ok p => rw [hp] at hnames; cases hnames
    | error e' =>
      rw [hp] at hnames
      obtain rfl := Except.error.inj hnames
      rw [(find_eq_error_iff.1 hp).2]

/-- The depths are those of the longest walks from the root along the definitions that count. -/
theorem depths_eq_some_iff (h : ofDefinitions top definitions = .ok r) {depth : Nat} :
    r.depths.get? n = some depth ↔
      ∃ k, depth = k + 1 ∧ IsGreatest {k | Walk (Leads definitions) top k n} k := by
  obtain ⟨built, hfollows, -, hroot, -⟩ := exists_follows_of_ofDefinitions h
  obtain rfl := hfollows.closed.name _ _ hroot
  rw [depths, (hfollows.closed.coherent hroot).get?_build_eq_some_iff,
    hfollows.chainLengths_eq hroot]

/-- A name has the same declared aggregates in both registries just if it counts alike. -/
theorem IsRearranged.declaredNames_eq_iff (h : IsRearranged definitions definitions')
    (hr : ofDefinitions top definitions = .ok r) (hr' : ofDefinitions top definitions' = .ok r') :
    r.declaredNames n = r'.declaredNames n ↔ CountAlike definitions definitions' n := by
  by_cases hn : IsDefined definitions n
  · obtain ⟨d, hd⟩ := exists_counts hn
    obtain ⟨d', hd'⟩ := exists_counts (h.isDefined_iff.1 hn)
    rw [(declaredNames_eq_ok_iff hr).2 ⟨d, hd, rfl⟩, (declaredNames_eq_ok_iff hr').2 ⟨d', hd', rfl⟩,
      Except.ok.injEq, h.aggregates_eq_iff hd hd']
  · rw [declaredNames_of_not_isDefined hr hn,
      declaredNames_of_not_isDefined hr' fun hn' => hn (h.isDefined_iff.2 hn')]
    exact iff_of_true rfl (.inl (agree_of_not_isDefined hn))

namespace IsRearranged

variable (h : IsRearranged definitions definitions')
  (hcount : ∀ n, CountAlike definitions definitions' n)

include h hcount

theorem exists_ok_iff (top : String) :
    (∃ r, ofDefinitions top definitions = .ok r) ↔ ∃ r, ofDefinitions top definitions' = .ok r := by
  rw [exists_ok_iff_leads, exists_ok_iff_leads, h.leads_eq hcount]
  simp only [h.isDefined_iff]

theorem depths_eq (hr : ofDefinitions top definitions = .ok r)
    (hr' : ofDefinitions top definitions' = .ok r') (n : String) :
    r.depths.get? n = r'.depths.get? n := by
  ext depth
  rw [depths_eq_some_iff hr, depths_eq_some_iff hr', h.leads_eq hcount]

end IsRearranged

/-- **The order of definitions of distinct names does not matter.** -/
theorem ofDefinitions_perm (hnames : (definitions.map (·.name)).Nodup)
    (hperm : definitions.Perm definitions') (top : String) :
    ((∃ r, ofDefinitions top definitions = .ok r) ↔ ∃ r, ofDefinitions top definitions' = .ok r) ∧
    ∀ r r', ofDefinitions top definitions = .ok r → ofDefinitions top definitions' = .ok r' →
      (∀ n, r.declaredNames n = r'.declaredNames n) ∧ ∀ n, r.depths.get? n = r'.depths.get? n := by
  have h : IsRearranged definitions definitions' := .of_perm hnames hperm
  have hcount : ∀ n, CountAlike definitions definitions' n :=
    fun n => .inl (agree_of_nodup hnames n)
  exact ⟨h.exists_ok_iff hcount top, fun r r' hr hr' =>
    ⟨fun n => (h.declaredNames_eq_iff hr hr').2 (hcount n), h.depths_eq hcount hr hr'⟩⟩

/-- **Two lists with the same definitions of every name give the same hierarchy just if the same
definitions count in both.** Then one gives a registry just if the other one does, and every name
has the same depth in both. For a name whose definitions have the same aggregates it does not matter
which of them counts. Otherwise the list has to tell them apart in the same way: by whether a name
that is listed before leads to it. -/
theorem ofDefinitions_rearranged (h : IsRearranged definitions definitions') (top : String) :
    ((∀ n, CountAlike definitions definitions' n) →
      ((∃ r, ofDefinitions top definitions = .ok r) ↔
        ∃ r, ofDefinitions top definitions' = .ok r)) ∧
    ∀ r r', ofDefinitions top definitions = .ok r → ofDefinitions top definitions' = .ok r' →
      (∀ n, r.declaredNames n = r'.declaredNames n ↔ CountAlike definitions definitions' n) ∧
      ((∀ n, CountAlike definitions definitions' n) →
        ∀ n, r.depths.get? n = r'.depths.get? n) :=
  ⟨fun hcount => h.exists_ok_iff hcount top, fun _ _ hr hr' =>
    ⟨fun _ => h.declaredNames_eq_iff hr hr', fun hcount => h.depths_eq hcount hr hr'⟩⟩

/-- A name that is defined twice, after a name that leads to it. -/
def repeatedDefinitions : List PrivilegeDefinition :=
  [ { name := "all", aggregates := ["read"] }, { name := "read", aggregates := ["list"] },
    { name := "read" }, { name := "list" } ]

/-- The same definitions, with a name in front that leads to none. -/
def listFirstDefinitions : List PrivilegeDefinition :=
  [ { name := "list" }, { name := "all", aggregates := ["read"] },
    { name := "read", aggregates := ["list"] }, { name := "read" } ]

theorem isRearranged_listFirst : IsRearranged repeatedDefinitions listFirstDefinitions := by
  intro n
  by_cases hlist : "list" = n
  · subst hlist
    rfl
  · simp [repeatedDefinitions, listFirstDefinitions, List.filter_cons, hlist]

theorem countAlike_listFirst (n : String) :
    CountAlike repeatedDefinitions listFirstDefinitions n := by
  by_cases hn : n = "read"
  · subst hn
    refine .inr (iff_of_true ?_ ?_)
    · exact metEarly_of_forall_mem (m := "all") (by decide) (by decide) (by decide)
    · exact metEarly_of_forall_mem (m := "all") (by decide) (by decide) (by decide)
  · have hsame : ∀ d ∈ repeatedDefinitions, ∀ e ∈ repeatedDefinitions, d.name = e.name →
        d.name ≠ "read" → d.aggregates = e.aggregates := by decide
    refine .inl (agree_of_forall fun d hd e he hname hname' => ?_)
    exact hsame d hd e he (hname.trans hname'.symm) (hname ▸ hn)

theorem ofDefinitions_rearranged_listFirst :
    ∃ r r', ofDefinitions "all" repeatedDefinitions = .ok r ∧
      ofDefinitions "all" listFirstDefinitions = .ok r' ∧
      (∀ n, r.declaredNames n = r'.declaredNames n) ∧ ∀ n, r.depths.get? n = r'.depths.get? n := by
  obtain ⟨hok, hsame⟩ := ofDefinitions_rearranged isRearranged_listFirst "all"
  have hr : ∃ r, ofDefinitions "all" repeatedDefinitions = .ok r := ⟨_, rfl⟩
  obtain ⟨r', hr'⟩ := (hok countAlike_listFirst).1 hr
  obtain ⟨r, hr⟩ := hr
  obtain ⟨hnames, hdepths⟩ := hsame r r' hr hr'
  exact ⟨r, r', hr, hr', fun n => (hnames n).2 (countAlike_listFirst n),
    hdepths countAlike_listFirst⟩

/-- With `b` before `a`, the last definition of `a` counts, and with `a` in front the first one,
which needs a privilege that is not defined. -/
theorem order_matters : ¬ ∀ top definitions definitions', IsRearranged definitions definitions' →
    ((∃ r, ofDefinitions top definitions = .ok r) ↔ ∃ r, ofDefinitions top definitions' = .ok r) ∧
      ∀ r r', ofDefinitions top definitions = .ok r → ofDefinitions top definitions' = .ok r' →
        (∀ n, r.declaredNames n = r'.declaredNames n) ∧
          ∀ n, r.depths.get? n = r'.depths.get? n := by
  intro hclaim
  have hrearranged : IsRearranged
      [ { name := "b", aggregates := ["a"] }, { name := "a", aggregates := ["zzz"] },
        { name := "a" } ]
      [ { name := "a", aggregates := ["zzz"] }, { name := "b", aggregates := ["a"] },
        { name := "a" } ] := by
    intro n
    by_cases hb : "b" = n
    · subst hb
      rfl
    · simp [List.filter_cons, hb]
  obtain ⟨r, hr⟩ := (hclaim "b" _ _ hrearranged).1.1 ⟨_, rfl⟩
  cases hr

end ContentImport.Registry
