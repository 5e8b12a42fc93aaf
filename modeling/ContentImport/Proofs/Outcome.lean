import Mathlib.Control.Lawful

/-!
# Outcomes of steps

A step of a repository or of an import returns a value or fails, and either way leaves a state.
Its `outcome` from a state is the pair of both. The lemmas here say what the outcome of a composed
step is, and what it takes for it to return a value (`outcome_bind_eq_ok`).
-/

namespace ContentImport

variable {ε σ α β : Type}

/-- What a step returns from a state, with the state that it leaves. -/
def outcome (c : ExceptT ε (StateM σ) α) (s : σ) : Except ε α × σ := c.run.run s

@[simp] theorem outcome_pure (a : α) (s : σ) :
    outcome (pure a : ExceptT ε (StateM σ) α) s = (.ok a, s) := rfl

@[simp] theorem outcome_throw (e : ε) (s : σ) :
    outcome (throw e : ExceptT ε (StateM σ) α) s = (.error e, s) := rfl

@[simp] theorem outcome_get (s : σ) :
    outcome (get : ExceptT ε (StateM σ) σ) s = (.ok s, s) := rfl

@[simp] theorem outcome_modify (f : σ → σ) (s : σ) :
    outcome (modify f : ExceptT ε (StateM σ) PUnit) s = (.ok (), f s) := rfl

@[simp] theorem outcome_bind (c : ExceptT ε (StateM σ) α) (f : α → ExceptT ε (StateM σ) β) (s : σ) :
    outcome (c >>= f) s =
      match outcome c s with
      | (.ok a, s') => outcome (f a) s'
      | (.error e, s') => (.error e, s') := by
  rw [outcome, outcome]
  change (ExceptT.bindCont f (c.run.run s).1) (c.run.run s).2 = _
  rcases c.run.run s with ⟨e | a, s'⟩ <;> rfl

@[simp] theorem outcome_map (f : α → β) (c : ExceptT ε (StateM σ) α) (s : σ) :
    outcome (f <$> c) s =
      match outcome c s with
      | (.ok a, s') => (.ok (f a), s')
      | (.error e, s') => (.error e, s') := by
  rw [map_eq_pure_bind, outcome_bind]
  rcases outcome c s with ⟨e | a, s'⟩ <;> rfl

theorem outcome_bind_of_ok {c : ExceptT ε (StateM σ) α} {f : α → ExceptT ε (StateM σ) β} {s u : σ}
    {a : α} (h : outcome c s = (.ok a, u)) : outcome (c >>= f) s = outcome (f a) u := by
  rw [outcome_bind, h]

/-- A step after another one returns a value only if both do. -/
theorem outcome_bind_eq_ok {c : ExceptT ε (StateM σ) α} {f : α → ExceptT ε (StateM σ) β} {s t : σ}
    {b : β} (h : outcome (c >>= f) s = (.ok b, t)) :
    ∃ a u, outcome c s = (.ok a, u) ∧ outcome (f a) u = (.ok b, t) := by
  rw [outcome_bind] at h
  rcases hc : outcome c s with ⟨e | a, u⟩
  · rw [hc] at h
    cases h
  · rw [hc] at h
    exact ⟨a, u, rfl, h⟩

theorem snd_outcome_map (f : α → β) (c : ExceptT ε (StateM σ) α) (s : σ) :
    (outcome (f <$> c) s).2 = (outcome c s).2 := by
  rw [outcome_map]
  rcases outcome c s with ⟨e | a, s'⟩ <;> rfl

/-- Steps that never fail do not fail one after the other. -/
theorem fst_outcome_forM {ι : Type} {f : ι → ExceptT ε (StateM σ) PUnit}
    (hf : ∀ i s, (outcome (f i) s).1 = .ok ()) (l : List ι) (s : σ) :
    (outcome (l.forM f) s).1 = .ok () := by
  induction l generalizing s with
  | nil => rfl
  | cons i l ih =>
    rw [List.forM, outcome_bind]
    have hi := hf i s
    rcases houtcome : outcome (f i) s with ⟨e | ⟨⟩, s'⟩
    · rw [houtcome] at hi
      cases hi
    · exact ih s'

end ContentImport
