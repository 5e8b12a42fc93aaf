import ContentImport.Proofs.Repository.Tree

/-!
# Users and groups of a reachable repository

* Only groups have members, each of which is known and listed once (`HasSoundMembers`). Every
  operation keeps that (`Step.hasSoundMembers`).
* What an operation finds stored it leaves there, at most with more members and other properties
  (`Step.persists`): no operation removes an authorizable, or turns it into another one.

So the authorizables of a reachable repository are sound, and they persist through all operations
that follow (`Reachable.authorizables_sound_and_persist`).
-/

namespace ContentImport

/-! ## What may become of an authorizable -/

namespace Authorizable

/-- An authorizable later on: members may have been added and properties set. -/
structure Extends (a b : Authorizable) : Prop where
  id : b.id = a.id
  kind : b.kind = a.kind
  home : b.home = a.home
  passwordHash : b.passwordHash = a.passwordHash
  members : a.members <+: b.members

theorem Extends.refl (a : Authorizable) : a.Extends a := ⟨rfl, rfl, rfl, rfl, List.prefix_rfl⟩

theorem Extends.trans {a b c : Authorizable} (h : a.Extends b) (h' : b.Extends c) :
    a.Extends c where
  id := h'.id.trans h.id
  kind := h'.kind.trans h.kind
  home := h'.home.trans h.home
  passwordHash := h'.passwordHash.trans h.passwordHash
  members := h.members.trans h'.members

/-- All that a table holds is in a later one too, extended at most. -/
def Persists (t t' : Table Authorizable) : Prop :=
  ∀ id a, t.get? id = some a → ∃ b, t'.get? id = some b ∧ a.Extends b

theorem Persists.refl (t : Table Authorizable) : Persists t t := fun _ a ha => ⟨a, ha, .refl a⟩

theorem Persists.trans {t t' t'' : Table Authorizable} (h : Persists t t') (h' : Persists t' t'') :
    Persists t t'' := by
  intro id a ha
  obtain ⟨b, hb, hab⟩ := h id a ha
  obtain ⟨c, hc, hbc⟩ := h' id b hb
  exact ⟨c, hc, hab.trans hbc⟩

/-- What is stored under a new identifier, or extends what was there, takes nothing away. -/
theorem persists_insert {t : Table Authorizable} {id : String} {b : Authorizable}
    (h : ∀ a, t.get? id = some a → a.Extends b) : Persists t (t.insert id b) := by
  intro j a ha
  rw [Table.get?_insert]
  split
  · next hj => exact ⟨b, rfl, h a (hj ▸ ha)⟩
  · exact ⟨a, ha, .refl a⟩

/-! ## Sound tables -/

/-- Only a group has members, each of which a table knows, and none is listed twice. -/
structure HasSoundMembers (t : Table Authorizable) (a : Authorizable) : Prop where
  isGroup : a.members ≠ [] → a.isGroup = true
  known : ∀ m ∈ a.members, t.contains m = true
  nodup : a.members.Nodup

theorem hasSoundMembers_of_nil {t : Table Authorizable} {a : Authorizable} (h : a.members = []) :
    HasSoundMembers t a := by
  refine ⟨fun hne => absurd h hne, ?_, ?_⟩
  · rw [h]
    exact List.forall_mem_nil _
  · rw [h]
    exact List.nodup_nil

/-- A known member that a group does not have may be added. -/
theorem HasSoundMembers.add {t : Table Authorizable} {member : String} {g : Authorizable}
    (h : HasSoundMembers t g) (hgroup : g.isGroup = true) (hmember : t.contains member = true)
    (hnew : member ∉ g.members) :
    HasSoundMembers t { g with members := g.members ++ [member] } where
  isGroup := fun _ => hgroup
  known := by
    intro m hm
    rcases List.mem_append.1 hm with hm | hm
    · exact h.known m hm
    · exact List.mem_singleton.1 hm ▸ hmember
  nodup := by
    refine List.nodup_append.2 ⟨h.nodup, List.nodup_singleton member, ?_⟩
    rintro m hm _ hsingle rfl
    exact hnew (List.mem_singleton.1 hsingle ▸ hm)

/-- A table goes on to know the members of its groups when something is stored in it. -/
theorem hasSoundMembers_insert {t : Table Authorizable} {id : String} {a : Authorizable}
    (h : ∀ j b, t.get? j = some b → HasSoundMembers t b) (ha : HasSoundMembers t a) :
    ∀ j b, (t.insert id a).get? j = some b → HasSoundMembers (t.insert id a) b := by
  have hinsert : ∀ b, HasSoundMembers t b → HasSoundMembers (t.insert id a) b := fun b hb =>
    ⟨hb.isGroup, fun m hm => Table.contains_insert_iff.2 (.inr (hb.known m hm)), hb.nodup⟩
  exact Table.forall_get?_insert (fun j b hb => hinsert b (h j b hb)) (hinsert a ha)

end Authorizable

namespace Repository

open Authorizable

variable {r r' : Repository} {op : Operation}

/-! ## Steps -/

/-- **A step keeps the members of groups sound.** -/
theorem Step.hasSoundMembers (h : Step r op r')
    (hr : ∀ id a, r.authorizables.get? id = some a → HasSoundMembers r.authorizables a) :
    ∀ id a, r'.authorizables.get? id = some a → HasSoundMembers r'.authorizables a := by
  cases h with
  | createUser | createGroup => exact hasSoundMembers_insert hr (hasSoundMembers_of_nil rfl)
  | addMember hmember hg hgroup hnew =>
    exact hasSoundMembers_insert hr ((hr _ _ hg).add hgroup hmember hnew)
  | setAuthorizableProperty ha =>
    have hmembers := hr _ _ ha
    exact hasSoundMembers_insert hr ⟨hmembers.isGroup, hmembers.known, hmembers.nodup⟩
  | _ => exact hr

/-- **A step takes no authorizable away.** -/
theorem Step.persists (h : Step r op r') : Persists r.authorizables r'.authorizables := by
  cases h with
  | createUser hid | createGroup hid =>
    refine persists_insert fun a ha => ?_
    rw [hid] at ha
    cases ha
  | addMember _ hg =>
    refine persists_insert fun a ha => ?_
    obtain rfl := Option.some.inj (hg.symm.trans ha)
    exact ⟨rfl, rfl, rfl, rfl, List.prefix_append _ _⟩
  | setAuthorizableProperty hold =>
    refine persists_insert fun a ha => ?_
    obtain rfl := Option.some.inj (hold.symm.trans ha)
    exact ⟨rfl, rfl, rfl, rfl, List.prefix_rfl⟩
  | _ => exact .refl _

/-! ## Runs -/

theorem persists_run (ops : List Operation) (r : Repository) :
    Persists r.authorizables (run ops r).authorizables := by
  induction ops generalizing r with
  | nil => exact .refl _
  | cons op ops ih => exact (op.step r).persists.trans (ih (op.after r))

theorem Reachable.hasSoundMembers (h : Reachable r) :
    ∀ id a, r.authorizables.get? id = some a → HasSoundMembers r.authorizables a := by
  induction h with
  | new =>
    intro id a ha
    cases ha
  | step _ op ih => exact (op.step _).hasSoundMembers ih

/-- **The authorizables of a reachable repository are stored as they should be, and they persist.**
Each is stored under its own identifier; only groups have members, each of which is known and listed
once. Whatever operations follow, it is still there, with the same kind, home and password and with
all of its members. -/
theorem Reachable.authorizables_sound_and_persist (h : Reachable r) :
    (∀ id a, r.authorizables.get? id = some a →
      a.id = id ∧ HasSoundMembers r.authorizables a) ∧
      ∀ ops, Persists r.authorizables (Repository.run ops r).authorizables := by
  refine ⟨fun id a ha => ⟨h.id_eq id a ha, h.hasSoundMembers id a ha⟩, ?_⟩
  intro ops
  exact persists_run ops r

/-- A user becomes a member of a group, and then operations fail or find nothing to do. -/
def membershipOperations : List Operation :=
  [ .createUser "ann" (some "secret"), .createGroup "staff", .addMember "staff" "ann",
    .createGroup "ann", .addMember "staff" "ann", .addMember "ann" "staff",
    .addMember "staff" "ghost", .setAuthorizableProperty "ann" "email" (.string "a@b") ]

/-- The repository that these operations leave. -/
def membershipRepository : Repository := run membershipOperations (new .standard)

theorem authorizables_sound_and_persist_of_membership :
    membershipRepository.Reachable ∧
      (membershipRepository.authorizables.get? "staff").map Authorizable.members = some ["ann"] ∧
      (∀ id a, membershipRepository.authorizables.get? id = some a →
        a.id = id ∧ HasSoundMembers membershipRepository.authorizables a) ∧
      ∀ ops, Persists membershipRepository.authorizables
        (run ops membershipRepository).authorizables :=
  have h : membershipRepository.Reachable := (Reachable.new .standard).run membershipOperations
  ⟨h, by decide +kernel, h.authorizables_sound_and_persist⟩

end Repository

end ContentImport
