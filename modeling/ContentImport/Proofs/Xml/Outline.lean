import ContentImport.Xml.Event

/-!
# Outlines of XML documents

The events of a document without a fault are those of elements that lie one in another, of which the
last ones may still be open where the document ends.

* `Fragment` is what can stand between two tags that match: text and whole elements.
* `Outline` is a whole document, or one that ends inside of an element.
* Every document without a fault has an outline (`exists_outline`), since an end tag is accepted
  only if it matches the innermost start tag that has none (`IsRest`).
-/

namespace ContentImport.Xml

/-- What stands between two tags that match. -/
inductive Fragment
  | empty
  | text (s : String) (rest : Fragment)
  | element (e : Element) (inside rest : Fragment)

/-- A document. It may end inside of an element that has no end tag. -/
inductive Outline
  | whole (c : Fragment)
  | cut (before : Fragment) (e : Element) (inside : Outline)

namespace Fragment

/-- The events of a fragment. -/
def events : Fragment → List Event
  | .empty => []
  | .text s rest => .text s :: rest.events
  | .element e inside rest => .opened e :: (inside.events ++ .closed e.name :: rest.events)

/-- A fragment followed by another one. -/
def append : Fragment → Fragment → Fragment
  | .empty, c => c
  | .text s rest, c => .text s (rest.append c)
  | .element e inside rest, c => .element e inside (rest.append c)

@[simp] theorem events_append (a b : Fragment) : (a.append b).events = a.events ++ b.events := by
  induction a with
  | empty => rfl
  | text s rest ih => simp [append, events, ih]
  | element e inside rest _ ih => simp [append, events, ih]

end Fragment

namespace Outline

/-- The events of a document. -/
def events : Outline → List Event
  | .whole c => c.events
  | .cut before e inside => before.events ++ .opened e :: inside.events

/-- A document with a fragment in front of it. -/
def prepend (c : Fragment) : Outline → Outline
  | .whole d => .whole (c.append d)
  | .cut before e inside => .cut (c.append before) e inside

@[simp] theorem events_prepend (c : Fragment) (o : Outline) :
    (o.prepend c).events = c.events ++ o.events := by
  cases o <;> simp [prepend, events]

end Outline

/-! ## Documents without faults -/

/-- What can follow the start tags of elements with these names, the innermost first. -/
inductive IsRest : List String → List Event → Prop
  | cut (o : Outline) (names : List String) : IsRest names o.events
  | closed (c : Fragment) {name : String} {names : List String} {es : List Event}
      (h : IsRest names es) : IsRest (name :: names) (c.events ++ .closed name :: es)

namespace IsRest

variable {names : List String} {es : List Event}

theorem prepend (c : Fragment) (h : IsRest names es) : IsRest names (c.events ++ es) := by
  cases h with
  | cut o =>
    rw [← Outline.events_prepend]
    exact .cut _ _
  | closed c' h =>
    rw [← List.append_assoc, ← Fragment.events_append]
    exact .closed _ h

theorem text (s : String) (h : IsRest names es) : IsRest names (.text s :: es) :=
  h.prepend (.text s .empty)

/-- An element without content. -/
theorem emptyElement (e : Element) (h : IsRest names es) :
    IsRest names (.opened e :: .closed e.name :: es) :=
  h.prepend (.element e .empty .empty)

/-- The start tag of an element is followed by its content and its end tag, or the document ends
inside of it. -/
theorem opened (e : Element) (h : IsRest (e.name :: names) es) :
    IsRest names (.opened e :: es) := by
  cases h with
  | cut o => exact .cut (.cut .empty e o) names
  | @closed c _ _ es h =>
    have hevents : Event.opened e :: (c.events ++ .closed e.name :: es) =
        (Fragment.element e c .empty).events ++ es := by
      simp [Fragment.events]
    rw [hevents]
    exact h.prepend _

end IsRest

namespace Event

/-- A start tag opens an element of its name. -/
theorem name_of_start? {outside : Scope} {content : Bytes} {e : Element} {o : Opened}
    (h : start? outside content = some (e, o)) : e.name = localName o.name := by
  obtain ⟨scope, -, heq⟩ := Option.map_eq_some_iff.1 h
  obtain ⟨rfl, rfl⟩ := Prod.mk.inj heq
  rfl

/-- **End tags match the innermost start tags.** -/
theorem isRest_ofTokens (stack : List Opened) (tokens : List Token)
    (h : .fault ∉ ofTokens stack tokens) :
    IsRest (stack.map fun o => localName o.name) (ofTokens stack tokens) := by
  fun_induction ofTokens stack tokens with
  | case1 stack => exact .cut (.whole .empty) _
  | case2 stack raw r s _ ih => exact (ih fun hr => h (.tail _ hr)).text s
  | case4 stack raw r ih => exact (ih fun hr => h (.tail _ hr)).text _
  | case6 stack _ r content isEmpty _ e o hstart ihOutside ihInside =>
    cases isEmpty with
    | true => exact (ihOutside fun hr => h (.tail _ (.tail _ hr))).emptyElement e
    | false =>
      have hinside := ihInside fun hr => h (.tail _ hr)
      rw [List.map_cons, ← name_of_start? hstart] at hinside
      exact hinside.opened e
  | case8 o stack r ih => exact .closed .empty (ih fun hr => h (.tail _ hr))
  | case10 stack r ih => exact ih h
  | case3 | case5 | case7 | case9 | case11 => exact absurd (List.mem_singleton_self _) h

/-- **A document without a fault has an outline.** -/
theorem exists_outline {bytes : Bytes} (h : .fault ∉ ofBytes bytes) :
    ∃ o : Outline, o.events = ofBytes bytes := by
  have hrest := isRest_ofTokens [] (Token.ofBytes bytes) h
  rw [List.map_nil] at hrest
  generalize hes : ofTokens [] (Token.ofBytes bytes) = es at hrest
  cases hrest with
  | cut o => exact ⟨o, hes.symm⟩

end Event

end ContentImport.Xml
