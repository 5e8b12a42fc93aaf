import ContentImport.Proofs.Outcome

/-!
# Steps that keep an invariant

A step that fails leaves a state too, and whoever asked for it may go on from there. So an
invariant is to hold of the state that a step leaves in either case: `Keeps I c Q` says that, and
that a value that the step returns satisfies `Q`. There is one rule for each way to put steps
together.
-/

namespace ContentImport

variable {ε σ α β : Type} {I : σ → Prop} {Q : α → Prop} {R : β → Prop}
  {c : ExceptT ε (StateM σ) α}

/-- From a state with an invariant, a step leaves a state with it, and the value that it returns,
if it does not fail, satisfies a condition. -/
def Keeps (I : σ → Prop) (c : ExceptT ε (StateM σ) α) (Q : α → Prop := fun _ => True) : Prop :=
  ∀ s, I s → I (outcome c s).2 ∧ ∀ a, (outcome c s).1 = .ok a → Q a

namespace Keeps

theorem pure {a : α} (ha : Q a) : Keeps I (pure a : ExceptT ε (StateM σ) α) Q := by
  intro s hs
  refine ⟨hs, ?_⟩
  intro b hb
  exact Except.ok.inj hb ▸ ha

theorem throw (e : ε) : Keeps I (throw e : ExceptT ε (StateM σ) α) Q := by
  intro s hs
  refine ⟨hs, ?_⟩
  intro b hb
  cases hb

theorem get : Keeps I (get : ExceptT ε (StateM σ) σ) I := by
  intro s hs
  refine ⟨hs, ?_⟩
  intro b hb
  exact Except.ok.inj hb ▸ hs

theorem modify {f : σ → σ} (hf : ∀ s, I s → I (f s)) :
    Keeps I (modify f : ExceptT ε (StateM σ) PUnit) :=
  fun s hs => ⟨hf s hs, fun _ _ => trivial⟩

theorem bind {f : α → ExceptT ε (StateM σ) β} (hc : Keeps I c Q)
    (hf : ∀ a, Q a → Keeps I (f a) R) : Keeps I (c >>= f) R := by
  intro s hs
  obtain ⟨hleft, hvalue⟩ := hc s hs
  rw [outcome_bind]
  rcases houtcome : outcome c s with ⟨e | a, s'⟩
  · rw [houtcome] at hleft
    refine ⟨hleft, ?_⟩
    intro b hb
    cases hb
  · rw [houtcome] at hleft hvalue
    exact hf a (hvalue a rfl) s' hleft

/-- What holds after a first step, whether it fails or not, holds at the end if the steps that
follow keep it. -/
theorem after_bind {f : α → ExceptT ε (StateM σ) β} {s : σ} (hc : I (outcome c s).2)
    (hf : ∀ a, Keeps I (f a)) : I (outcome (c >>= f) s).2 := by
  rw [outcome_bind]
  rcases houtcome : outcome c s with ⟨e | a, s'⟩
  · rwa [houtcome] at hc
  · rw [houtcome] at hc
    exact (hf a s' hc).1

theorem discard (hc : Keeps I c Q) : Keeps I (discard c) := by
  have hbind : Functor.discard c = c >>= fun _ => Pure.pure () := rfl
  rw [hbind]
  exact hc.bind fun _ _ => .pure trivial

/-- A step that is carried out under a condition only, and what follows it either way. -/
theorem guarded {p : Prop} [Decidable p] {c : ExceptT ε (StateM σ) Unit}
    {rest : Unit → ExceptT ε (StateM σ) β} (hc : p → Keeps I c)
    (hrest : ∀ u, Keeps I (rest u) R) : Keeps I (if p then c >>= rest else rest ()) R := by
  split
  · next hp => exact (hc hp).bind fun u _ => hrest u
  · exact hrest ()

/-- A step that keeps two invariants keeps both together. -/
theorem and {J : σ → Prop} (hI : Keeps I c Q) (hJ : Keeps J c) :
    Keeps (fun s => I s ∧ J s) c Q := by
  intro s hs
  obtain ⟨hleft, hvalue⟩ := hI s hs.1
  exact ⟨⟨hleft, (hJ s hs.2).1⟩, hvalue⟩

theorem forM {ι : Type} {l : List ι} {f : ι → ExceptT ε (StateM σ) PUnit}
    (hf : ∀ i ∈ l, Keeps I (f i)) : Keeps I (l.forM f) := by
  induction l with
  | nil => exact .pure trivial
  | cons i l ih =>
    obtain ⟨hi, hl⟩ := List.forall_mem_cons.1 hf
    exact hi.bind fun _ _ => ih hl

end Keeps

end ContentImport
