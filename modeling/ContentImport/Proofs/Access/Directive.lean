import ContentImport.Access.Order
import ContentImport.Proofs.Number.Integer

/-!
# Order directives that are read back

`OrderDirective.Gives` says what a text has to look like to give a directive: one of two words, a
name behind a word and a blank, or a decimal notation of a signed 64-bit integer. Just these texts
are read (`parse?_eq_some_iff`), and the text that is written for a directive gives it
(`gives_text_iff`), whatever its name looks like.
-/

namespace ContentImport.OrderDirective

open Integer (IsDecimal)

variable {s : String} {d : OrderDirective} {n : Int}

/-- A text gives a directive. The name is all that follows the blank. -/
inductive Gives : String → OrderDirective → Prop
  | first : Gives "first" .first
  | last : Gives "last" .last
  | before (name : String) : Gives ("before " ++ name) (.before name)
  | after (name : String) : Gives ("after " ++ name) (.after name)
  | index {s : String} {n : Int} (h : IsDecimal s.toList n) (hlow : -2 ^ 63 ≤ n)
      (hhigh : n < 2 ^ 63) : Gives s (.index n)

/-- The number of a directive has at most 64 bits. -/
def IsLong : OrderDirective → Prop
  | .index n => -2 ^ 63 ≤ n ∧ n < 2 ^ 63
  | _ => True

theorem parseIndex?_eq_some_iff :
    parseIndex? s = some n ↔ IsDecimal s.toList n ∧ -2 ^ 63 ≤ n ∧ n < 2 ^ 63 := by
  rw [parseIndex?, Option.bind_eq_some_iff]
  constructor
  · rintro ⟨m, hm, hrange⟩
    split at hrange
    · next hbounds =>
      obtain rfl := Option.some.inj hrange
      exact ⟨Integer.signed?_eq_some_iff.1 hm, hbounds⟩
    · cases hrange
  · rintro ⟨hdecimal, hbounds⟩
    exact ⟨n, Integer.signed?_eq_some_iff.2 hdecimal, if_pos hbounds⟩

/-! ## Reading -/

theorem head?_append {lead : String} {c : Char} (hlead : lead.toList.head? = some c)
    (rest : String) : (lead ++ rest).toList.head? = some c := by
  rw [String.toList_append, List.head?_append, hlead]
  rfl

theorem ne_of_head? {word : String} {c : Char} (hs : s.toList.head? = some c)
    (hword : word.toList.head? ≠ some c) : s ≠ word := by
  rintro rfl
  exact hword hs

theorem after?_eq_none {lead : String} {c : Char} (hlead : lead.toList.head? = some c)
    (hs : s.toList.head? ≠ some c) : Text.after? lead s = none := by
  rw [Option.eq_none_iff_forall_ne_some]
  intro rest h
  rw [Text.after?_eq_some_iff.1 h] at hs
  exact hs (head?_append hlead rest)

/-- A text that begins with another letter than the words of directives is read as an integer. -/
theorem parse?_of_head? (h : ∀ c ∈ ['f', 'l', 'b', 'a'], s.toList.head? ≠ some c) :
    parse? s = (parseIndex? s).map .index := by
  simp only [List.forall_mem_cons] at h
  obtain ⟨hf, hl, hb, ha, -⟩ := h
  have hfirst : s ≠ "first" := by rintro rfl; exact hf rfl
  have hlast : s ≠ "last" := by rintro rfl; exact hl rfl
  rw [parse?, if_neg hfirst, if_neg hlast, after?_eq_none (c := 'b') rfl hb,
    after?_eq_none (c := 'a') rfl ha]

theorem parse?_before (name : String) : parse? ("before " ++ name) = some (.before name) := by
  have hhead : ("before " ++ name).toList.head? = some 'b' := head?_append rfl name
  have hfirst : "before " ++ name ≠ "first" := ne_of_head? hhead (by decide)
  have hlast : "before " ++ name ≠ "last" := ne_of_head? hhead (by decide)
  rw [parse?, if_neg hfirst, if_neg hlast, Text.after?_eq_some_iff.2 rfl]

theorem parse?_after (name : String) : parse? ("after " ++ name) = some (.after name) := by
  have hhead : ("after " ++ name).toList.head? = some 'a' := head?_append rfl name
  have hfirst : "after " ++ name ≠ "first" := ne_of_head? hhead (by decide)
  have hlast : "after " ++ name ≠ "last" := ne_of_head? hhead (by decide)
  have hbefore : Text.after? "before " ("after " ++ name) = none :=
    after?_eq_none (c := 'b') rfl (by rw [hhead]; simp)
  rw [parse?, if_neg hfirst, if_neg hlast, hbefore, Text.after?_eq_some_iff.2 rfl]

/-- **The texts that give a directive are read, and no others.** -/
theorem parse?_eq_some_iff : parse? s = some d ↔ Gives s d := by
  constructor
  · intro h
    unfold parse? at h
    split at h
    · next hs =>
      obtain rfl := Option.some.inj h
      exact hs ▸ .first
    split at h
    · next hs =>
      obtain rfl := Option.some.inj h
      exact hs ▸ .last
    split at h
    · next name hname =>
      obtain rfl := Option.some.inj h
      exact Text.after?_eq_some_iff.1 hname ▸ .before name
    split at h
    · next name hname =>
      obtain rfl := Option.some.inj h
      exact Text.after?_eq_some_iff.1 hname ▸ .after name
    · obtain ⟨n, hn, rfl⟩ := Option.map_eq_some_iff.1 h
      obtain ⟨hdecimal, hlow, hhigh⟩ := parseIndex?_eq_some_iff.1 hn
      exact .index hdecimal hlow hhigh
  · intro h
    cases h with
    | first => rfl
    | last => rfl
    | before name => exact parse?_before name
    | after name => exact parse?_after name
    | index hdecimal hlow hhigh =>
      have hletter : ∀ c ∈ ['f', 'l', 'b', 'a'],
          ¬ (Text.isDigit c = true ∨ c = '+' ∨ c = '-') := by
        simp [Text.isDigit]
      have hhead : ∀ c ∈ ['f', 'l', 'b', 'a'], s.toList.head? ≠ some c :=
        fun c hc hs => hletter c hc (hdecimal.head c hs)
      rw [parse?_of_head? hhead, parseIndex?_eq_some_iff.2 ⟨hdecimal, hlow, hhigh⟩]
      rfl

theorem parse_eq_ok_iff : parse s = .ok d ↔ Gives s d := by
  rw [← parse?_eq_some_iff, parse]
  cases parse? s <;> simp

/-- A text that gives no directive is the error. -/
theorem parse_eq_error_iff {e : AccessError} :
    parse s = .error e ↔ (∀ d, ¬ Gives s d) ∧ e = .invalidOrder s := by
  simp only [← parse?_eq_some_iff, ← Option.eq_none_iff_forall_ne_some, parse]
  cases parse? s <;> simp [eq_comm]

/-! ## Writing -/

theorem Gives.isLong (h : Gives s d) : d.IsLong := by
  cases h with
  | index _ hlow hhigh => exact ⟨hlow, hhigh⟩
  | _ => trivial

/-- The text of a directive gives it, if its number is not too long. -/
theorem gives_text_iff : Gives d.text d ↔ d.IsLong := by
  refine ⟨Gives.isLong, fun h => ?_⟩
  cases d with
  | first => exact .first
  | last => exact .last
  | before name => exact .before name
  | after name => exact .after name
  | index n =>
    have hdecimal := Integer.signed?_eq_some_iff.1 (Integer.signed?_render n)
    exact .index hdecimal h.1 h.2

/-- **A text is read as the directive that it gives,** or else it is the error. What is written for
a directive is read as that directive, whatever its name is, as long as its number has at most 64
bits. -/
theorem parse_spec (s : String) (d : OrderDirective) :
    (parse s = .ok d ↔ Gives s d) ∧
      (∀ e, parse s = .error e ↔ (∀ d, ¬ Gives s d) ∧ e = .invalidOrder s) ∧
      (parse d.text = .ok d ↔ d.IsLong) := by
  refine ⟨parse_eq_ok_iff, fun e => parse_eq_error_iff, ?_⟩
  rw [parse_eq_ok_iff]
  exact gives_text_iff

example : parse "-9223372036854775808" = .ok (.index (-2 ^ 63)) ∧
    parse "9223372036854775808" = .error (.invalidOrder "9223372036854775808") ∧
    parse "before after 7" = .ok (.before "after 7") := by
  decide

end ContentImport.OrderDirective
