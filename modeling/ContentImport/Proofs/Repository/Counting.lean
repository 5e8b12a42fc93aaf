import ContentImport.Proofs.Repository.Definitions
import ContentImport.Proofs.Repository.Depths

/-!
# The definition of a name that counts

Definitions may repeat a name. Which of its definitions counts is a matter of how the name is met
first: where it is listed, by its first definition, or as a part of something that is listed before,
by its last one.

* `MetEarly` says that a name is met as a part first, and `Counts` which definition counts then.
  A name is met early just if a name that is listed before leads to it by the definitions that count
  (`metEarly_iff`).
* `Leads` is containment by the definitions that count. Definitions give a registry just if it is
  complete and has no cycles, and then they give what it says (`exists_ok_iff_leads`, `Follows`).
-/

namespace ContentImport.Registry

open Privilege
open Relation (TransGen ReflTransGen)

variable {definitions : List PrivilegeDefinition} {d e : PrivilegeDefinition} {n m k : String}

/-! ## Names that are met early -/

/-- The place at which a name is listed first. -/
def place (definitions : List PrivilegeDefinition) (n : String) : Nat :=
  (definitions.map (·.name)).idxOf n

/-- The first definition of a name. -/
def first? (definitions : List PrivilegeDefinition) (n : String) : Option PrivilegeDefinition :=
  definitions.find? fun d => d.name == n

/-- The last definition of a name. -/
def last? (definitions : List PrivilegeDefinition) (n : String) : Option PrivilegeDefinition :=
  (index definitions).get? n

/-- Whether the last definition of a name has another name for an aggregate. -/
def LastLeads (definitions : List PrivilegeDefinition) (n m : String) : Prop :=
  ∃ d, last? definitions n = some d ∧ m ∈ d.aggregates

/-- A name is met as a part before the place where it is listed first: a name that is listed before
it has a part that leads to it, on a way that leaves what is listed before. -/
def MetEarly (definitions : List PrivilegeDefinition) (n : String) : Prop :=
  ∃ m k, ∃ _ : place definitions m < place definitions n,
    (∃ d, (MetEarly definitions m ∧ last? definitions m = some d ∨
      ¬ MetEarly definitions m ∧ first? definitions m = some d) ∧ k ∈ d.aggregates) ∧
    ReflTransGen (fun a b => place definitions n ≤ place definitions a ∧
      LastLeads definitions a b) k n
termination_by place definitions n

/-- The definition of a name that counts: the last one if the name is met early, and the first one
if it is not. -/
def Counts (definitions : List PrivilegeDefinition) (n : String) (d : PrivilegeDefinition) : Prop :=
  MetEarly definitions n ∧ last? definitions n = some d ∨
    ¬ MetEarly definitions n ∧ first? definitions n = some d

/-- Whether the definition of a name that counts has another name for an aggregate. -/
def Leads (definitions : List PrivilegeDefinition) (n m : String) : Prop :=
  ∃ d, Counts definitions n d ∧ m ∈ d.aggregates

theorem metEarly_eq (definitions : List PrivilegeDefinition) (n : String) :
    MetEarly definitions n ↔
      ∃ m k, place definitions m < place definitions n ∧ Leads definitions m k ∧
        ReflTransGen (fun a b => place definitions n ≤ place definitions a ∧
          LastLeads definitions a b) k n := by
  rw [MetEarly]
  simp only [exists_prop, Leads, Counts]

/-- The last definition of a name that is met early counts. -/
theorem leads_iff_of_metEarly (h : MetEarly definitions n) :
    Leads definitions n m ↔ LastLeads definitions n m := by
  simp [Leads, Counts, LastLeads, h]

/-- A walk of so many steps. -/
inductive Walk (R : String → String → Prop) (a : String) : Nat → String → Prop
  | refl : Walk R a 0 a
  | tail {k : Nat} {b c : String} (h : Walk R a k b) (hbc : R b c) : Walk R a (k + 1) c

theorem Walk.exists_of_transGen {R : String → String → Prop} {a b : String} (h : TransGen R a b) :
    ∃ k, Walk R a k b := by
  induction h with
  | single hab => exact ⟨1, .tail .refl hab⟩
  | tail _ hbc ih =>
    obtain ⟨k, hk⟩ := ih
    exact ⟨k + 1, hk.tail hbc⟩

/-- A walk that starts before a name stays before it, or leaves what is before it for the last time
somewhere. -/
theorem Walk.cases_place {t : String} {r : Nat}
    (hearly : ∀ s < r, ∀ b, Walk (Leads definitions) m s b →
      place definitions m < place definitions b → MetEarly definitions b)
    (hm : place definitions m < place definitions t) {s : Nat} (hs : s ≤ r) {b : String}
    (h : Walk (Leads definitions) m s b) :
    place definitions b < place definitions t ∨
      ∃ a k, place definitions a < place definitions t ∧ Leads definitions a k ∧
        ReflTransGen (fun a b => place definitions t ≤ place definitions a ∧
          LastLeads definitions a b) k b := by
  induction h with
  | refl => exact .inl hm
  | @tail s b c hwalk hbc ih =>
    refine .inr ?_
    by_cases hb : place definitions b < place definitions t
    · exact ⟨b, c, hb, hbc, .refl⟩
    · obtain ⟨a, k, ha, hak, hkb⟩ := (ih (by omega)).resolve_left hb
      have hmet := hearly s (by omega) b hwalk (by omega)
      exact ⟨a, k, ha, hak, hkb.tail ⟨by omega, (leads_iff_of_metEarly hmet).1 hbc⟩⟩

theorem metEarly_of_walk {r : Nat} (h : Walk (Leads definitions) m r n)
    (hmn : place definitions m < place definitions n) : MetEarly definitions n := by
  induction r using Nat.strongRecOn generalizing n with
  | _ r ih =>
    -- shorter walks show that the last definitions count on the way, as `MetEarly` asks for
    have hearly : ∀ s < r, ∀ b, Walk (Leads definitions) m s b →
        place definitions m < place definitions b → MetEarly definitions b :=
      fun s hs b hb hmb => ih s hs hb hmb
    obtain ⟨a, k, ha, hak, hkn⟩ :=
      (Walk.cases_place hearly hmn (Nat.le_refl r) h).resolve_left (Nat.lt_irrefl _)
    exact (metEarly_eq _ _).2 ⟨a, k, ha, hak, hkn⟩

/-- **A name is met early just if a name that is listed before leads to it.** -/
theorem metEarly_iff (definitions : List PrivilegeDefinition) (n : String) :
    MetEarly definitions n ↔
      ∃ m, place definitions m < place definitions n ∧ TransGen (Leads definitions) m n := by
  constructor
  · intro h
    obtain ⟨m, k, hmn, hmk, hkn⟩ := (metEarly_eq _ _).1 h
    have hreach : ∀ b, ReflTransGen (fun a b => place definitions n ≤ place definitions a ∧
        LastLeads definitions a b) k b → TransGen (Leads definitions) m b := by
      intro b hkb
      induction hkb with
      | refl => exact .single hmk
      | tail _ hbc ih =>
        obtain ⟨hplace, hleads⟩ := hbc
        obtain ⟨r, hr⟩ := Walk.exists_of_transGen ih
        have hmet := metEarly_of_walk hr (by omega)
        exact ih.tail ((leads_iff_of_metEarly hmet).2 hleads)
    exact ⟨m, hmn, hreach n hkn⟩
  · rintro ⟨m, hmn, h⟩
    obtain ⟨r, hr⟩ := Walk.exists_of_transGen h
    exact metEarly_of_walk hr hmn

/-! ## Definitions that count -/

theorem first?_eq (definitions : List PrivilegeDefinition) (n : String) :
    first? definitions n = (definitions.filter fun d => d.name == n).head? :=
  List.head?_filter.symm

theorem last?_eq (definitions : List PrivilegeDefinition) (n : String) :
    last? definitions n = (definitions.filter fun d => d.name == n).getLast? := by
  rw [last?, index, Table.get?_ofList, List.filter_map, List.getLast?_map, Option.map_map]
  exact Option.map_id'

theorem Counts.mem (h : Counts definitions n d) : d ∈ definitions ∧ d.name = n := by
  rcases h with ⟨-, h⟩ | ⟨-, h⟩
  · exact of_get?_index h
  · have hname := List.find?_some h
    exact ⟨List.mem_of_find?_eq_some h, eq_of_beq hname⟩

theorem Counts.unique (h : Counts definitions n d) (h' : Counts definitions n e) : d = e := by
  rcases h with ⟨hmet, hd⟩ | ⟨hmet, hd⟩ <;> rcases h' with ⟨hmet', he⟩ | ⟨hmet', he⟩
  · exact Option.some.inj (hd.symm.trans he)
  · exact absurd hmet hmet'
  · exact absurd hmet' hmet
  · exact Option.some.inj (hd.symm.trans he)

theorem exists_counts (h : IsDefined definitions n) : ∃ d, Counts definitions n d := by
  by_cases hmet : MetEarly definitions n
  · obtain ⟨d, hd⟩ := isDefined_iff.1 h
    exact ⟨d, .inl ⟨hmet, hd⟩⟩
  · obtain ⟨d, hd, hname⟩ := h
    have hfound : (first? definitions n).isSome := List.find?_isSome.2 ⟨d, hd, beq_of_eq hname⟩
    obtain ⟨e, he⟩ := Option.isSome_iff_exists.1 hfound
    exact ⟨e, .inr ⟨hmet, he⟩⟩

/-- A name is met early if all definitions of a name that is listed before have it. -/
theorem metEarly_of_forall_mem (hm : IsDefined definitions m)
    (hall : ∀ d ∈ definitions, d.name = m → n ∈ d.aggregates)
    (hmn : place definitions m < place definitions n) : MetEarly definitions n := by
  obtain ⟨d, hd⟩ := exists_counts hm
  have hstep : Leads definitions m n := ⟨d, hd, hall d hd.mem.1 hd.mem.2⟩
  exact (metEarly_iff _ _).2 ⟨m, hmn, .single hstep⟩

/-! ## What is built follows the definitions that count -/

/-- What is built is as the definitions that count say. -/
structure Follows (definitions : List PrivilegeDefinition) (built : Table Privilege) : Prop where
  closed : Closed built
  isOf : ∀ n p, built.get? n = some p → ∃ d, Counts definitions n d ∧ IsOf d p

variable {around : List String} {built built' : Table Privilege} {p : Privilege} {fuel : Nat}
  {top : String}

namespace Follows

theorem exists_declares (h : Follows definitions built) (hp : built.get? n = some p)
    (hnm : Leads definitions n m) : ∃ q, p.Declares q ∧ built.get? m = some q := by
  obtain ⟨d, hd, hm⟩ := hnm
  obtain ⟨e, he, hof⟩ := h.isOf n p hp
  obtain rfl := hd.unique he
  rw [← hof.aggregates] at hm
  obtain ⟨q, hq, rfl⟩ := List.mem_map.1 hm
  exact ⟨q, hq, h.closed.declared n p hp q hq⟩

theorem exists_of_transGen (h : Follows definitions built) (hp : built.get? n = some p)
    (hnm : TransGen (Leads definitions) n m) : ∃ q, built.get? m = some q := by
  induction hnm with
  | single hnm =>
    obtain ⟨q, -, hq⟩ := h.exists_declares hp hnm
    exact ⟨q, hq⟩
  | tail _ hlast ih =>
    obtain ⟨q, hq⟩ := ih
    obtain ⟨s, -, hs⟩ := h.exists_declares hq hlast
    exact ⟨s, hs⟩

end Follows

/-- What is built when a name is about to be built: what is listed before, and some of its parts. -/
structure BuiltUpTo (definitions : List PrivilegeDefinition) (top : String)
    (built : Table Privilege) : Prop where
  follows : Follows definitions built
  listed : ∀ m, place definitions m < place definitions top → ∃ p, built.get? m = some p

namespace BuiltUpTo

theorem not_metEarly (h : BuiltUpTo definitions top built) (hnew : built.get? top = none) :
    ¬ MetEarly definitions top := by
  rw [metEarly_iff]
  rintro ⟨m, hm, hleads⟩
  obtain ⟨p, hp⟩ := h.listed m hm
  obtain ⟨q, hq⟩ := h.follows.exists_of_transGen hp hleads
  rw [hnew] at hq
  cases hq

/-- The last definition counts of a part that is not built yet. -/
theorem counts (h : BuiltUpTo definitions top built) (hleads : TransGen (Leads definitions) top n)
    (hnew : built.get? n = none) (hne : n ≠ top) (hd : last? definitions n = some d) :
    Counts definitions n d := by
  have hmem : n ∈ definitions.map (·.name) := by
    obtain ⟨hmem, rfl⟩ := of_get?_index hd
    exact List.mem_map_of_mem hmem
  have hplace : place definitions top < place definitions n := by
    have hle : ¬ place definitions n < place definitions top := by
      intro hlt
      obtain ⟨p, hp⟩ := h.listed n hlt
      rw [hnew] at hp
      cases hp
    have hne' : place definitions n ≠ place definitions top := fun heq =>
      hne ((List.idxOf_inj hmem).1 heq)
    omega
  exact .inl ⟨(metEarly_iff _ _).2 ⟨top, hplace, hleads⟩, hd⟩

end BuiltUpTo

/-! ## Building -/

/-- What holds when a definition is built for a name that is listed: what is built is as the
definitions that count say, and if the definition is still to be built, it counts, and the name
leads to it. -/
structure IsDue (definitions : List PrivilegeDefinition) (top : String) (around : List String)
    (built : Table Privilege) (d : PrivilegeDefinition) : Prop where
  upTo : BuiltUpTo definitions top built
  sound : Sound around built
  mem : d ∈ definitions
  topMem : top ∈ d.name :: around
  leads : ∀ n ∈ around, TransGen (Leads definitions) n d.name
  counts : built.get? d.name = none → d.name ∉ around → Counts definitions d.name d

namespace IsDue

theorem transGen_part (h : IsDue definitions top around built d)
    (hstep : Leads definitions d.name n) :
    ∀ m ∈ d.name :: around, TransGen (Leads definitions) m n :=
  List.forall_mem_cons.2 ⟨.single hstep, fun m hm => (h.leads m hm).tail hstep⟩

/-- The parts of a definition that is to be built are due. -/
theorem part (h : IsDue definitions top around built d) (hnew : built.get? d.name = none)
    (haround : d.name ∉ around) {b : Table Privilege} (hb : BuiltUpTo definitions top b)
    (hsound : Sound (d.name :: around) b) (hn : n ∈ d.aggregates)
    (he : (index definitions).get? n = some e) :
    IsDue definitions top (d.name :: around) b e := by
  obtain ⟨hmem, rfl⟩ := of_get?_index he
  have hstep : Leads definitions d.name e.name := ⟨d, h.counts hnew haround, hn⟩
  have hleads := h.transGen_part hstep
  refine ⟨hb, hsound, hmem, List.mem_cons_of_mem _ h.topMem, hleads, fun hunbuilt hout => ?_⟩
  refine hb.counts (hleads top h.topMem) hunbuilt ?_ he
  rintro heq
  rw [heq] at hout
  exact hout h.topMem

theorem sound_cons (h : IsDue definitions top around built d) (hnew : built.get? d.name = none) :
    Sound (d.name :: around) built :=
  ⟨h.sound.closed, List.forall_mem_cons.2 ⟨hnew, h.sound.unbuilt⟩⟩

end IsDue

/-- **What is built follows the definitions that count.** -/
theorem builtUpTo_build (hd : IsDue definitions top around built d)
    (h : build (index definitions) fuel around built d = .ok (p, built')) :
    BuiltUpTo definitions top built' ∧ p.name = d.name := by
  -- a part may be built anywhere inside of another one, so the name at the top stays what it is
  induction fuel generalizing around built d p built' with
  | zero => cases h
  | succ fuel ih =>
    obtain ⟨hsound', hextends, -⟩ := build_eq_ok hd.sound h
    rw [build] at h
    cases hbuilt : built.get? d.name with
    | some q =>
      rw [hbuilt] at h
      cases h
      exact ⟨hd.upTo, hd.sound.closed.name _ _ hbuilt⟩
    | none =>
      rw [hbuilt] at h
      dsimp only at h
      split at h
      · cases h
      next haround =>
      obtain ⟨⟨parts, b⟩, hparts, h⟩ := andThen_eq_ok_iff.1 h
      obtain ⟨rfl, rfl⟩ := Prod.mk.inj (Except.ok.inj h)
      have hkeep : ∀ n ∈ d.aggregates, ∀ e, (index definitions).get? n = some e →
          ∀ b q b', BuiltUpTo definitions top b ∧ Sound (d.name :: around) b →
            build (index definitions) fuel (d.name :: around) b e = .ok (q, b') →
            (BuiltUpTo definitions top b' ∧ Sound (d.name :: around) b') ∧ q.name = n := by
        rintro n hn e he b q b' ⟨hb, hsound⟩ hq
        obtain ⟨hb', hname⟩ := ih (hd.part hbuilt haround hb hsound hn he) hq
        exact ⟨⟨hb', (build_eq_ok hsound hq).1⟩, hname.trans (of_get?_index he).2⟩
      obtain ⟨⟨hb, -⟩, hnames⟩ :=
        buildEach_ok_induction hkeep ⟨hd.upTo, hd.sound_cons hbuilt⟩ hparts
      refine ⟨⟨⟨hsound'.closed, Table.forall_get?_insert hb.follows.isOf ?_⟩, fun m hm => ?_⟩, rfl⟩
      · exact ⟨d, hd.counts hbuilt haround, rfl, rfl, hnames⟩
      · obtain ⟨q, hq⟩ := hd.upTo.listed m hm
        exact ⟨q, hextends m q hq⟩

/-- An aggregate of a definition that counts is not defined, or a name leads back to itself. -/
def IsFaulty (definitions : List PrivilegeDefinition) : Prop :=
  (∃ n m, Leads definitions n m ∧ ¬ IsDefined definitions m) ∨
    ∃ n, TransGen (Leads definitions) n n

/-- **Building fails for a fault of the definitions that count only.** -/
theorem isFaulty_of_build {error : AccessError} (hroomy : IsRoomy definitions fuel around)
    (hd : IsDue definitions top around built d)
    (h : build (index definitions) fuel around built d = .error error) : IsFaulty definitions := by
  induction fuel generalizing around built d with
  | zero => exact absurd hroomy.pos (Nat.lt_irrefl 0)
  | succ fuel ih =>
    rw [build] at h
    cases hbuilt : built.get? d.name with
    | some p => rw [hbuilt] at h; cases h
    | none =>
      rw [hbuilt] at h
      dsimp only at h
      split at h
      · next hmem => exact .inr ⟨d.name, hd.leads d.name hmem⟩
      next haround =>
      rcases andThen_eq_error_iff.1 h with h | ⟨⟨parts, b⟩, -, h⟩
      · have hkeep : ∀ n ∈ d.aggregates, ∀ e, (index definitions).get? n = some e →
            ∀ b q b', BuiltUpTo definitions top b ∧ Sound (d.name :: around) b →
              build (index definitions) fuel (d.name :: around) b e = .ok (q, b') →
              BuiltUpTo definitions top b' ∧ Sound (d.name :: around) b' := by
          rintro n hn e he b q b' ⟨hb, hsound⟩ hq
          exact ⟨(builtUpTo_build (hd.part hbuilt haround hb hsound hn he) hq).1,
            (build_eq_ok hsound hq).1⟩
        obtain ⟨n, hn, ⟨hnone, -⟩ | ⟨e, b, he, ⟨hb, hsound⟩, herror⟩⟩ :=
          buildEach_error_induction hkeep ⟨hd.upTo, hd.sound_cons hbuilt⟩ h
        · refine .inl ⟨d.name, n, ⟨d, hd.counts hbuilt haround, hn⟩, fun hdefined => ?_⟩
          obtain ⟨e, he⟩ := isDefined_iff.1 hdefined
          rw [hnone] at he
          cases he
        · exact ih (hroomy.cons hd.mem haround) (hd.part hbuilt haround hb hsound hn he) herror
      · cases h

section Listed

variable {s t : List PrivilegeDefinition}

theorem mem_of_place_lt (hn : place (s ++ t) n < s.length) : n ∈ s.map (·.name) := by
  by_contra hnot
  rw [place, List.map_append, List.idxOf_append_of_notMem hnot, List.length_map] at hn
  omega

theorem place_le (d : PrivilegeDefinition) : place (s ++ d :: t) d.name ≤ s.length := by
  rw [place, List.map_append, List.map_cons]
  by_cases hmem : d.name ∈ s.map (·.name)
  · rw [List.idxOf_append_of_mem hmem]
    have hlt := List.idxOf_lt_length_of_mem hmem
    rw [List.length_map] at hlt
    omega
  · rw [List.idxOf_append_of_notMem hmem, List.idxOf_cons_self, List.length_map]
    omega

/-- A definition is due when those that are listed before it are built. -/
theorem isDue_listed (hfollows : Follows (s ++ d :: t) built)
    (hlisted : ∀ c ∈ s, ∃ p, built.get? c.name = some p) :
    IsDue (s ++ d :: t) d.name [] built d := by
  have hmem : ∀ m ∈ s.map (·.name), ∃ p, built.get? m = some p := by
    intro m hm
    obtain ⟨c, hc, rfl⟩ := List.mem_map.1 hm
    exact hlisted c hc
  have hup : BuiltUpTo (s ++ d :: t) d.name built := by
    refine ⟨hfollows, fun m hm => hmem m ?_⟩
    exact mem_of_place_lt (Nat.lt_of_lt_of_le hm (place_le d))
  refine ⟨hup, ⟨hfollows.closed, List.forall_mem_nil _⟩, by simp, List.mem_singleton_self _,
    List.forall_mem_nil _, fun hnew _ => .inr ⟨hup.not_metEarly hnew, ?_⟩⟩
  have hfirst : s.find? (fun c => c.name == d.name) = none := by
    rw [List.find?_eq_none]
    intro c hc hname
    obtain ⟨p, hp⟩ := hlisted c hc
    rw [eq_of_beq hname, hnew] at hp
    cases hp
  rw [first?, List.find?_append, hfirst, Option.none_or]
  exact List.find?_cons_of_pos (beq_self_eq_true d.name)

end Listed

/-- **The definitions that count are followed until one of them is at fault.** -/
theorem follows_buildAll (hfuel : definitions.length < fuel) :
    (∀ built, buildAll fuel definitions = .ok built →
      Follows definitions built ∧ ∀ d ∈ definitions, ∃ p, built.get? d.name = some p) ∧
      ∀ error, buildAll fuel definitions = .error error → IsFaulty definitions := by
  have hempty : Follows definitions Table.empty := by
    refine ⟨closed_empty, fun n p hp => ?_⟩
    cases hp
  have hstep : ∀ s d t, definitions = s ++ d :: t → ∀ b b',
      (Follows definitions b ∧ ∀ c ∈ s, ∃ p, b.get? c.name = some p) →
      (build (index definitions) fuel [] b d >>= fun x => pure x.2) = .ok b' →
      Follows definitions b' ∧ ∀ c ∈ s ++ [d], ∃ p, b'.get? c.name = some p := by
    rintro s d t hsplit b b' ⟨hfollows, hlisted⟩ hd
    obtain ⟨⟨p, c⟩, hp, hd⟩ := andThen_eq_ok_iff.1 hd
    obtain rfl := Except.ok.inj hd
    subst hsplit
    have hdue := isDue_listed hfollows hlisted
    obtain ⟨hup, hname⟩ := builtUpTo_build hdue hp
    obtain ⟨-, hextends, hget⟩ := build_eq_ok hdue.sound hp
    refine ⟨hup.follows, List.forall_mem_append.2 ⟨fun e he => ?_, ?_⟩⟩
    · obtain ⟨q, hq⟩ := hlisted e he
      exact ⟨q, hextends _ _ hq⟩
    · exact List.forall_mem_singleton.2 ⟨p, hname ▸ hget⟩
  obtain ⟨hok, herror⟩ := foldlM_induction hstep ⟨hempty, List.forall_mem_nil _⟩
  refine ⟨hok, fun error h => ?_⟩
  obtain ⟨s, d, t, b, hsplit, ⟨hfollows, hlisted⟩, hd⟩ := herror error h
  rcases andThen_eq_error_iff.1 hd with hd | ⟨⟨p, c⟩, -, hd⟩
  · subst hsplit
    exact isFaulty_of_build (isRoomy_nil hfuel) (isDue_listed hfollows hlisted) hd
  · cases hd

/-! ## Registries -/

/-- **The registry of definitions follows those that count.** -/
theorem exists_follows_of_ofDefinitions {root : String} {r : Registry}
    (h : ofDefinitions root definitions = .ok r) :
    ∃ built, Follows definitions built ∧ (∀ d ∈ definitions, ∃ p, built.get? d.name = some p) ∧
      built.get? root = some r.root ∧ ∀ n, r.privileges.get? n = built.get? n := by
  obtain ⟨built, hbuilt, hroot, hget⟩ := exists_buildAll_of_ofDefinitions h
  obtain ⟨hfollows, hlisted⟩ := (follows_buildAll (Nat.lt_succ_self _)).1 built hbuilt
  exact ⟨built, hfollows, hlisted, hroot, hget⟩

/-- **Definitions give a registry just if those that count are complete and acyclic,** and the root
is defined. -/
theorem exists_ok_iff_leads (root : String) (definitions : List PrivilegeDefinition) :
    (∃ r, ofDefinitions root definitions = .ok r) ↔
      (∀ n m, Leads definitions n m → IsDefined definitions m) ∧
        (∀ n, ¬ TransGen (Leads definitions) n n) ∧ IsDefined definitions root := by
  constructor
  · rintro ⟨r, hr⟩
    obtain ⟨built, hfollows, hlisted, hroot, -⟩ := exists_follows_of_ofDefinitions hr
    have hdefined : ∀ n p, built.get? n = some p → IsDefined definitions n := by
      intro n p hp
      obtain ⟨d, hd, -⟩ := hfollows.isOf n p hp
      exact ⟨d, hd.mem⟩
    have hstep : ∀ n m, Leads definitions n m →
        ∃ p q, built.get? n = some p ∧ p.Declares q ∧ built.get? m = some q := by
      rintro n m hnm
      obtain ⟨d, hd, -⟩ := id hnm
      obtain ⟨hmem, rfl⟩ := hd.mem
      obtain ⟨p, hp⟩ := hlisted d hmem
      obtain ⟨q, hpq, hq⟩ := hfollows.exists_declares hp hnm
      exact ⟨p, q, hp, hpq, hq⟩
    refine ⟨fun n m hnm => ?_, fun n => not_transGen_of_declares hstep, hdefined _ _ hroot⟩
    obtain ⟨p, q, -, -, hq⟩ := hstep n m hnm
    exact hdefined m q hq
  · rintro ⟨hcomplete, hacyclic, hroot⟩
    obtain ⟨hok, herror⟩ := follows_buildAll (Nat.lt_succ_self definitions.length)
    rw [ofDefinitions_eq, ofDefinitionsWithin]
    cases hall : buildAll (definitions.length + 1) definitions with
    | error e =>
      rcases herror e hall with ⟨n, m, hnm, hm⟩ | ⟨n, hn⟩
      · exact absurd (hcomplete n m hnm) hm
      · exact absurd hn (hacyclic n)
    | ok built =>
      obtain ⟨d, hd, rfl⟩ := hroot
      obtain ⟨p, hp⟩ := (hok built hall).2 d hd
      exact ⟨_, by simp only [bind, Except.bind, hp]; rfl⟩

end ContentImport.Registry
