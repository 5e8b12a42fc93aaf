import Mathlib.Data.List.Forall2

/-!
# Steps that may fail

A step after another one returns a value if both do, and fails as the first of them that fails
(`andThen_eq_ok_iff`, `andThen_eq_error_iff`).

A step that may fail, taken for every element of a list in order, fails at the first element for
which it fails (`mapM_eq_error_iff`); if there is none it returns what it returns for each of them
(`mapM_eq_ok_iff`). If a test tells for which elements it fails, that is the first one to pass it
(`mapM_eq_error_iff_find?`). What the steps from one value to the next keep holds at the end of them
and where one of them fails (`foldlM_induction`).
-/

namespace ContentImport

variable {α β ε : Type} {f : α → Except ε β}

/-! ## One step after another -/

theorem andThen_eq_ok_iff {x : Except ε α} {b : β} :
    (x >>= f) = .ok b ↔ ∃ a, x = .ok a ∧ f a = .ok b := by
  cases x <;> simp [bind, Except.bind]

theorem andThen_eq_error_iff {x : Except ε α} {e : ε} :
    (x >>= f) = .error e ↔ x = .error e ∨ ∃ a, x = .ok a ∧ f a = .error e := by
  cases x <;> simp [bind, Except.bind]

/-! ## A step for every element -/

theorem mapM_cons_ok {a : α} {b : β} (h : f a = .ok b) (l : List α) :
    (a :: l).mapM f = (l.mapM f).map (b :: ·) := by
  rw [List.mapM_cons, h]
  cases l.mapM f <;> rfl

theorem mapM_cons_error {a : α} {e : ε} (h : f a = .error e) (l : List α) :
    (a :: l).mapM f = .error e := by
  rw [List.mapM_cons, h]; rfl

theorem mapM_eq_ok_iff {l : List α} {m : List β} :
    l.mapM f = .ok m ↔ List.Forall₂ (fun a b => f a = .ok b) l m := by
  induction l generalizing m with
  | nil =>
    rw [List.forall₂_nil_left_iff]
    exact ⟨fun h => by cases h; rfl, fun h => by rw [h]; rfl⟩
  | cons a l ih =>
    rw [List.forall₂_cons_left_iff]
    constructor
    · intro h
      rcases ha : f a with e | b
      · rw [mapM_cons_error ha] at h
        cases h
      · rw [mapM_cons_ok ha] at h
        rcases hl : l.mapM f with e | m'
        · rw [hl] at h
          cases h
        · rw [hl] at h
          cases h
          exact ⟨b, m', rfl, ih.1 hl, rfl⟩
    · rintro ⟨b, m', hb, hm, rfl⟩
      rw [mapM_cons_ok hb, ih.2 hm]
      rfl

theorem exists_of_mem_mapM {l : List α} {m : List β} (h : l.mapM f = .ok m) {b : β} (hb : b ∈ m) :
    ∃ a ∈ l, f a = .ok b := by
  rw [mapM_eq_ok_iff] at h
  induction h with
  | nil => cases hb
  | cons hab _ ih =>
    rcases List.mem_cons.1 hb with rfl | hb
    · exact ⟨_, by simp, hab⟩
    · obtain ⟨a, ha, hab'⟩ := ih hb
      exact ⟨a, List.mem_cons_of_mem _ ha, hab'⟩

/-- A step whose value is determined by an equation. -/
theorem mapM_eq_ok_iff_map {γ : Type} {u : β → γ} {v : α → γ}
    (h : ∀ a b, f a = .ok b ↔ v a = u b) {l : List α} {m : List β} :
    l.mapM f = .ok m ↔ l.map v = m.map u := by
  rw [mapM_eq_ok_iff, ← List.forall₂_eq_eq_eq, List.forall₂_map_left_iff,
    List.forall₂_map_right_iff]
  simp only [h]

theorem mapM_error_of {s : List α} (hs : ∀ c ∈ s, ∃ b, f c = .ok b) {a : α} {e : ε}
    (ha : f a = .error e) (t : List α) : (s ++ a :: t).mapM f = .error e := by
  induction s with
  | nil => exact mapM_cons_error ha t
  | cons c s ih =>
    obtain ⟨b, hb⟩ := hs c (by simp)
    rw [List.cons_append, mapM_cons_ok hb, ih fun d hd => hs d (List.mem_cons_of_mem _ hd)]
    rfl

theorem mapM_eq_error_iff {l : List α} {e : ε} :
    l.mapM f = .error e ↔
      ∃ s a t, l = s ++ a :: t ∧ (∀ c ∈ s, ∃ b, f c = .ok b) ∧ f a = .error e := by
  constructor
  · intro h
    induction l with
    | nil => cases h
    | cons a l ih =>
      rcases ha : f a with e' | b
      · rw [mapM_cons_error ha] at h
        cases h
        exact ⟨[], a, l, rfl, by simp, ha⟩
      · rw [mapM_cons_ok ha] at h
        rcases hl : l.mapM f with e' | m
        · rw [hl] at h
          cases h
          obtain ⟨s, c, t, rfl, hs, hc⟩ := ih hl
          exact ⟨a :: s, c, t, rfl, List.forall_mem_cons.2 ⟨⟨b, ha⟩, hs⟩, hc⟩
        · rw [hl] at h
          cases h
  · rintro ⟨s, a, t, rfl, hs, ha⟩
    exact mapM_error_of hs ha t

/-- A step that fails for the elements that satisfy a test fails for the first of them. -/
theorem mapM_eq_error_iff_find? {p : α → Bool} {fault : α → ε}
    (herror : ∀ a, p a = true → f a = .error (fault a))
    (hok : ∀ a, p a = false → ∃ b, f a = .ok b) {l : List α} {e : ε} :
    l.mapM f = .error e ↔ ∃ a, l.find? p = some a ∧ e = fault a := by
  induction l with
  | nil => simp [pure, Except.pure]
  | cons a l ih =>
    cases ha : p a with
    | true =>
      rw [mapM_cons_error (herror a ha), List.find?_cons_of_pos ha]
      simp [eq_comm]
    | false =>
      obtain ⟨b, hb⟩ := hok a ha
      rw [mapM_cons_ok hb, List.find?_cons_of_neg (by simp [ha]), ← ih]
      cases l.mapM f <;> simp [Except.map]

section FoldM

variable {f : β → α → Except ε β} {P : List α → β → Prop} {l : List α}

/-- What every step keeps, it may speak of the elements so far, holds wherever the steps get to. -/
theorem foldlM_induction
    (hf : ∀ s a t, l = s ++ a :: t → ∀ b b', P s b → f b a = .ok b' → P (s ++ [a]) b') {b : β}
    (hb : P [] b) :
    (∀ b', l.foldlM f b = .ok b' → P l b') ∧
      ∀ e, l.foldlM f b = .error e → ∃ s a t c, l = s ++ a :: t ∧ P s c ∧ f c a = .error e := by
  suffices hrest : ∀ rest s, l = s ++ rest → ∀ b, P s b →
      (∀ b', rest.foldlM f b = .ok b' → P l b') ∧
        ∀ e, rest.foldlM f b = .error e →
          ∃ s a t c, l = s ++ a :: t ∧ P s c ∧ f c a = .error e from hrest l [] rfl b hb
  intro rest
  induction rest with
  | nil =>
    rintro s rfl b hb
    refine ⟨fun b' h => ?_, fun e h => nomatch h⟩
    cases h
    rwa [List.append_nil]
  | cons a rest ih =>
    rintro s hl b hb
    rw [List.foldlM_cons]
    rcases hstep : f b a with e | c
    · refine ⟨(fun b' h => nomatch h), fun e' h => ?_⟩
      obtain rfl : e = e' := Except.error.inj h
      exact ⟨s, a, rest, b, hl, hb, hstep⟩
    · exact ih (s ++ [a]) (hl.trans (List.append_cons ..)) c (hf s a rest hl b c hb hstep)

theorem foldlM_ok_induction (hf : ∀ s, ∀ a ∈ l, ∀ b b', P s b → f b a = .ok b' → P (s ++ [a]) b')
    {b b' : β} (hb : P [] b) (h : l.foldlM f b = .ok b') : P l b' :=
  (foldlM_induction (fun s a t hl => hf s a (by simp [hl])) hb).1 b' h

theorem exists_of_foldlM_eq_error {b : β} {e : ε} (h : l.foldlM f b = .error e) :
    ∃ a ∈ l, ∃ c, f c a = .error e := by
  obtain ⟨s, a, t, c, rfl, -, hc⟩ :=
    (foldlM_induction (P := fun _ _ => True) (fun _ _ _ _ _ _ _ _ => trivial) trivial).2 e h
  exact ⟨a, by simp, c, hc⟩

end FoldM

theorem foldlM_congr {f g : β → α → Except ε β} {l : List α} (h : ∀ a ∈ l, ∀ b, f b a = g b a)
    (b : β) : l.foldlM f b = l.foldlM g b := by
  induction l generalizing b with
  | nil => rfl
  | cons a l ih =>
    obtain ⟨ha, hl⟩ := List.forall_mem_cons.1 h
    rw [List.foldlM_cons, List.foldlM_cons, ha]
    exact congrArg (g b a >>= ·) (funext fun c => ih hl c)

end ContentImport
