import ContentImport.Text.Basic
import Mathlib.Data.List.Basic

/-!
# Digits, blanks, beginnings and pieces

Digits are no blanks. A text without blanks is left when the blanks around it are removed
(`trim_between`), and what follows a beginning of a text makes up the text with it
(`after?_eq_some_iff`). The pieces that a text is cut into are free of the character at which it is
cut (`notMem_of_mem_split`), and those of two texts joined by it are the pieces of both
(`split_append`).
-/

namespace ContentImport.Text

/-! ## Digits -/

theorem isDigit_eq (c : Char) : isDigit c = c.isDigit := by
  rw [isDigit, Char.isDigit]
  rfl

theorem toNat_of_isDigit {c : Char} (h : isDigit c = true) : 48 ≤ c.toNat ∧ c.toNat ≤ 57 := by
  simpa [isDigit, Char.le_def, UInt32.le_iff_toNat_le] using h

theorem isBlank_eq_false_of_isDigit {c : Char} (h : isDigit c = true) : isBlank c = false := by
  have hrange := toNat_of_isDigit h
  unfold isBlank
  simp
  omega

theorem lowerChar_of_isDigit {c : Char} (h : isDigit c = true) : lowerChar c = c := by
  have hrange := toNat_of_isDigit h
  have hcapital : ¬ 'A' ≤ c := by
    rw [Char.le_def, UInt32.le_iff_toNat_le]
    change ¬ 65 ≤ c.toNat
    omega
  simp [lowerChar, hcapital]

/-! ## Blanks -/

theorem dropWhile_isBlank_append {l cs : List Char} (hl : ∀ c ∈ l, isBlank c = true)
    (hcs : ∀ c ∈ cs.head?, isBlank c = false) : (l ++ cs).dropWhile isBlank = cs := by
  rw [List.dropWhile_append_of_pos hl]
  cases cs with
  | nil => rfl
  | cons c cs =>
    rw [List.dropWhile_cons_of_neg]
    simp [hcs c rfl]

/-- The blanks around a text without blanks are removed. -/
theorem trim_between {l cs r : List Char} (hl : ∀ c ∈ l, isBlank c = true) (hne : cs ≠ [])
    (hcs : ∀ c ∈ cs, isBlank c = false) (hr : ∀ c ∈ r, isBlank c = true) :
    trim (String.ofList (l ++ cs ++ r)) = String.ofList cs := by
  have hfront : (l ++ (cs ++ r)).dropWhile isBlank = cs ++ r := by
    refine dropWhile_isBlank_append hl fun c hc => hcs c ?_
    rw [List.head?_append_of_ne_nil _ hne] at hc
    exact List.mem_of_mem_head? hc
  have hback : (r.reverse ++ cs.reverse).dropWhile isBlank = cs.reverse :=
    dropWhile_isBlank_append (fun c hc => hr c (List.mem_reverse.1 hc))
      fun c hc => hcs c (List.mem_reverse.1 (List.mem_of_mem_head? hc))
  rw [trim, trimEnd, String.toList_ofList, List.append_assoc, hfront, List.reverse_append, hback,
    List.reverse_reverse]

/-- A text without blanks is not trimmed. -/
theorem trim_eq_self {s : String} (h : ∀ c ∈ s.toList, isBlank c = false) : trim s = s := by
  by_cases hne : s.toList = []
  · obtain rfl : s = "" := String.toList_eq_nil_iff.1 hne
    rfl
  · have htrim := trim_between (l := []) (r := []) nofun hne h nofun
    rwa [List.nil_append, List.append_nil, String.ofList_toList] at htrim

/-! ## Beginnings -/

theorem after?_eq_some_iff {lead s rest : String} :
    after? lead s = some rest ↔ s = lead ++ rest := by
  rw [after?, Option.map_eq_some_iff]
  constructor
  · rintro ⟨cs, hcs, rfl⟩
    rw [List.isPrefixOf?_eq_some_iff_append_eq] at hcs
    rw [← String.toList_inj, String.toList_append, String.toList_ofList, hcs]
  · rintro rfl
    refine ⟨rest.toList, ?_, String.ofList_toList⟩
    rw [List.isPrefixOf?_eq_some_iff_append_eq, String.toList_append]

/-! ## Pieces -/

theorem pieces_append (sep : Char) (a b : List Char) :
    pieces sep (a ++ sep :: b) = pieces sep a ++ pieces sep b := by
  induction a with
  | nil => simp [pieces]
  | cons c a ih =>
    rw [List.cons_append, pieces, pieces, ih]
    split
    · rfl
    · cases hpieces : pieces sep a with
      | nil => exact absurd hpieces (pieces_ne_nil sep a)
      | cons p ps => rfl

theorem pieces_of_notMem {sep : Char} {cs : List Char} (h : sep ∉ cs) : pieces sep cs = [cs] := by
  induction cs with
  | nil => rfl
  | cons c r ih =>
    rw [List.mem_cons, not_or] at h
    rw [pieces, if_neg (Ne.symm h.1), ih h.2]

theorem notMem_of_mem_pieces {sep : Char} {cs p : List Char} (h : p ∈ pieces sep cs) : sep ∉ p := by
  induction cs generalizing p with
  | nil =>
    rw [List.mem_singleton.1 h]
    exact List.not_mem_nil
  | cons c r ih =>
    rw [pieces] at h
    split at h
    · rcases List.mem_cons.1 h with rfl | h
      · exact List.not_mem_nil
      · exact ih h
    · next hc =>
      cases hpieces : pieces sep r with
      | nil => exact absurd hpieces (pieces_ne_nil sep r)
      | cons q qs =>
        rw [hpieces] at h ih
        rcases List.mem_cons.1 h with rfl | h
        · rw [List.mem_cons, not_or]
          exact ⟨Ne.symm hc, ih List.mem_cons_self⟩
        · exact ih (List.mem_cons_of_mem _ h)

theorem notMem_of_mem_split {sep : Char} {s piece : String} (h : piece ∈ split sep s) :
    sep ∉ piece.toList := by
  obtain ⟨p, hp, rfl⟩ := List.mem_map.1 h
  rw [String.toList_ofList]
  exact notMem_of_mem_pieces hp

/-- The pieces of two texts around a character are those of the one and of the other. -/
theorem split_append (sep : Char) (s t : String) :
    split sep (s ++ String.singleton sep ++ t) = split sep s ++ split sep t := by
  have hlist : (s ++ String.singleton sep ++ t).toList = s.toList ++ sep :: t.toList := by simp
  rw [split, hlist, pieces_append, List.map_append]
  rfl

end ContentImport.Text
