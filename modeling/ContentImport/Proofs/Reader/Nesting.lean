import Mathlib.Algebra.BigOperators.Group.List.Basic
import Mathlib.Algebra.Order.Ring.Int
import ContentImport.Proofs.Xml.Outline
import ContentImport.Reader.Xml

/-!
# The nesting of the nodes of XML documents

A reader of XML opens a node late: as soon as something begins in it, or it ends. The calls of a
document lie one in another like its elements nevertheless.

* `Yields` says how the calls of elements stand among each other. All that comes from inside of a
  node element stands between the call that opens the node and the one that closes it (`Wraps`).
* `Issues` says it of a document that may end inside of elements. A node element without an end tag
  is opened if something begins inside of it, and dropped otherwise (`Starts`).
* `Call.IsNested` says that no call closes a node that none of the calls before it opened, and
  `Call.height` tells how many nodes are left open.

`reads_fragment` and `reads_outline` are the inductions over the elements of a document. Their
invariant is the node that waits to be opened (`Opens`): whatever begins first has its call in front
of its own, so the calls up to there are none. `calls_nested` is the result.
-/

namespace ContentImport

/-! ## Scripts -/

/-- A script followed by another one ends without an error if both do. -/
theorem Script.bind_eq_ok_iff {α β : Type} {s : Script α} {f : α → Script β} {cs : List Call}
    {b : β} :
    s >>= f = ⟨cs, .ok b⟩ ↔
      ∃ cs₁ a cs₂, s = ⟨cs₁, .ok a⟩ ∧ f a = ⟨cs₂, .ok b⟩ ∧ cs = cs₁ ++ cs₂ := by
  change s.bind f = _ ↔ _
  rcases s with ⟨cs₁, e | a⟩
  · simp [bind]
  · rcases hf : f a with ⟨cs₂, r⟩
    simp [bind, hf, and_comm, eq_comm]

/-! ## Heights -/

namespace Call

/-- How many more nodes are open after a call. -/
def rise : Call → Int
  | .openNode .. | .openPath .. => 1
  | .openFile .. => 2
  | .closeNode => -1
  | _ => 0

/-- How many more nodes are open after calls. -/
def height (cs : List Call) : Int := (cs.map rise).sum

@[simp] theorem height_nil : height [] = 0 := rfl

@[simp] theorem height_cons (c : Call) (cs : List Call) : height (c :: cs) = c.rise + height cs :=
  rfl

@[simp] theorem height_append (cs ds : List Call) : height (cs ++ ds) = height cs + height ds := by
  simp [height]

/-- No call closes a node that none of the calls before it opened. -/
def IsNested (cs : List Call) : Prop := ∀ p, p <+: cs → 0 ≤ height p

variable {c : Call} {cs ds : List Call}

theorem isNested_nil : IsNested [] := by
  intro p hp
  rw [List.prefix_nil.1 hp, height_nil]

theorem IsNested.nonneg (h : IsNested cs) : 0 ≤ height cs := h cs List.prefix_rfl

theorem IsNested.append (hcs : IsNested cs) (hds : IsNested ds) : IsNested (cs ++ ds) := by
  intro p hp
  rcases List.prefix_or_prefix_of_prefix hp (List.prefix_append cs ds) with hp' | ⟨q, rfl⟩
  · exact hcs p hp'
  · rw [height_append]
    have hcs' := hcs.nonneg
    have hq := hds q ((List.prefix_append_right_inj cs).1 hp)
    omega

theorem IsNested.snoc (hcs : IsNested cs) (hc : 0 ≤ height cs + c.rise) : IsNested (cs ++ [c]) := by
  intro p hp
  rcases List.prefix_concat_iff.1 hp with rfl | hp
  · simpa using hc
  · exact hcs p hp

end Call

namespace XmlReader

open Xml (Event Element Fragment Outline)

variable {origin : Origin} {d d' d'' : Draft} {e : Element} {es : List Event} {cs inner : List Call}

/-! ## Elements and their calls -/

/-- Whether an element stands for a file. -/
def IsFile (e : Element) : Prop := e.name = "file" ∧ e.space = some typeSpace

instance (e : Element) : Decidable (IsFile e) := instDecidableAnd

/-- Whether an element begins something inside of the node element around it. -/
def begins (e : Element) : Bool := e.name = "node" ∨ e.name = "property" ∨ IsFile e

/-- The calls of the file that an element stands for. -/
inductive FileCalls (origin : Origin) (e : Element) : List Call → Prop
  | file (name : String) (data : Except FileError Bytes) (mediaType : Option String)
      (modified : Int) (he : IsFile e) (hlocation : origin.location ≠ none) :
      FileCalls origin e [.openFile name data mediaType modified, .closeNode, .closeNode]
  | skipped (he : IsFile e → origin.location = none) : FileCalls origin e []

/-- The calls of the property that an element stands for. -/
inductive PropertyCalls (e : Element) : List Call → Prop
  | single (name : String) (type : ValueType) (text : String) (he : e.name = "property") :
      PropertyCalls e [.setProperty name type text]
  | multiple (name : String) (type : ValueType) (texts : List String) (he : e.name = "property") :
      PropertyCalls e [.setProperties name type texts]
  | skipped : PropertyCalls e []

/-- The calls of an element around those from inside of it. -/
inductive Wraps (origin : Origin) (e : Element) (inner : List Call) : List Call → Prop
  | node (name type : Option String) (mixins : List String) (he : e.name = "node") :
      Wraps origin e inner (.openNode name type mixins :: (inner ++ [.closeNode]))
  | other {file property : List Call} (he : e.name ≠ "node") (hfile : FileCalls origin e file)
      (hproperty : PropertyCalls e property) : Wraps origin e inner (file ++ inner ++ property)

/-- The calls of an element without an end tag around those from inside of it, where something
begins inside of it or not. -/
inductive Starts (origin : Origin) (e : Element) (inner : List Call) : Bool → List Call → Prop
  | node (name type : Option String) (mixins : List String) (he : e.name = "node") :
      Starts origin e inner true (.openNode name type mixins :: inner)
  | dropped (he : e.name = "node") : Starts origin e inner false inner
  | other {file : List Call} (begun : Bool) (he : e.name ≠ "node")
      (hfile : FileCalls origin e file) : Starts origin e inner begun (file ++ inner)

/-- Whether something begins in a fragment. -/
def beginsIn : Fragment → Bool
  | .empty => false
  | .text _ rest => beginsIn rest
  | .element e inside rest => begins e || beginsIn inside || beginsIn rest

/-- The calls of a fragment. -/
inductive Yields (origin : Origin) : Fragment → List Call → Prop
  | empty : Yields origin .empty []
  | text {rest : Fragment} {cs : List Call} (s : String) (hrest : Yields origin rest cs) :
      Yields origin (.text s rest) cs
  | element {e : Element} {inside rest : Fragment} {inner own cs : List Call}
      (hinside : Yields origin inside inner) (hown : Wraps origin e inner own)
      (hrest : Yields origin rest cs) : Yields origin (.element e inside rest) (own ++ cs)

/-- Whether something begins in a document. -/
def beginsWithin : Outline → Bool
  | .whole c => beginsIn c
  | .cut before e inside => beginsIn before || begins e || beginsWithin inside

/-- The calls of a document. -/
inductive Issues (origin : Origin) : Outline → List Call → Prop
  | whole {c : Fragment} {cs : List Call} (h : Yields origin c cs) :
      Issues origin (.whole c) cs
  | cut {before : Fragment} {e : Element} {inside : Outline} {cs inner own : List Call}
      (hbefore : Yields origin before cs) (hinside : Issues origin inside inner)
      (hown : Starts origin e inner (beginsWithin inside) own) :
      Issues origin (.cut before e inside) (cs ++ own)

/-- The number of node elements without an end tag inside of which something begins. -/
def unfinished : Outline → Nat
  | .whole _ => 0
  | .cut _ e inside => (if e.name = "node" ∧ beginsWithin inside then 1 else 0) + unfinished inside

/-! ## The heights of the calls of elements -/

theorem FileCalls.isNested (h : FileCalls origin e cs) : Call.IsNested cs := by
  cases h with
  | skipped => exact Call.isNested_nil
  | file name data mediaType modified =>
    have h₁ : Call.IsNested [.openFile name data mediaType modified] :=
      Call.isNested_nil.snoc (by simp [Call.rise])
    have h₂ := h₁.snoc (c := .closeNode) (by simp [Call.rise])
    exact h₂.snoc (c := .closeNode) (by simp [Call.rise])

theorem FileCalls.height (h : FileCalls origin e cs) : Call.height cs = 0 := by
  cases h <;> rfl

theorem PropertyCalls.isNested (h : PropertyCalls e cs) : Call.IsNested cs := by
  cases h with
  | skipped => exact Call.isNested_nil
  | single | multiple => exact Call.isNested_nil.snoc (by simp [Call.rise])

theorem PropertyCalls.height (h : PropertyCalls e cs) : Call.height cs = 0 := by
  cases h <;> rfl

theorem Wraps.isNested (h : Wraps origin e inner cs) (hinner : Call.IsNested inner) :
    Call.IsNested cs := by
  cases h with
  | node name type mixins =>
    have hopen : Call.IsNested [.openNode name type mixins] :=
      Call.isNested_nil.snoc (by simp [Call.rise])
    refine (hopen.append hinner).snoc ?_
    have := hinner.nonneg
    simp [Call.rise]
    omega
  | other _ hfile hproperty => exact (hfile.isNested.append hinner).append hproperty.isNested

theorem Wraps.height (h : Wraps origin e inner cs) : Call.height cs = Call.height inner := by
  cases h with
  | node => simp [Call.rise]
  | other _ hfile hproperty => simp [hfile.height, hproperty.height]

/-- What a fragment opens, it closes again. -/
theorem Yields.isNested_and_height {c : Fragment} (h : Yields origin c cs) :
    Call.IsNested cs ∧ Call.height cs = 0 := by
  induction h with
  | empty => exact ⟨Call.isNested_nil, rfl⟩
  | text _ _ ih => exact ih
  | element _ hown _ ihinside ihrest =>
    refine ⟨(hown.isNested ihinside.1).append ihrest.1, ?_⟩
    rw [Call.height_append, hown.height, ihinside.2, ihrest.2, add_zero]

theorem Starts.isNested {begun : Bool} (h : Starts origin e inner begun cs)
    (hinner : Call.IsNested inner) : Call.IsNested cs := by
  cases h with
  | node name type mixins =>
    have hopen : Call.IsNested [.openNode name type mixins] :=
      Call.isNested_nil.snoc (by simp [Call.rise])
    exact hopen.append hinner
  | dropped => exact hinner
  | other _ _ hfile => exact hfile.isNested.append hinner

theorem Starts.height {begun : Bool} (h : Starts origin e inner begun cs) :
    Call.height cs = (if e.name = "node" ∧ begun then 1 else 0) + Call.height inner := by
  cases h with
  | node _ _ _ he => simp [Call.rise, he]
  | dropped => simp
  | other _ he hfile => simp [hfile.height, he]

/-- A document leaves the nodes open that are not finished in it. -/
theorem Issues.isNested_and_height {o : Outline} (h : Issues origin o cs) :
    Call.IsNested cs ∧ Call.height cs = unfinished o := by
  induction h with
  | whole h => exact h.isNested_and_height
  | cut hbefore _ hown ih =>
    obtain ⟨hnested, hheight⟩ := hbefore.isNested_and_height
    refine ⟨hnested.append (hown.isNested ih.1), ?_⟩
    rw [Call.height_append, hheight, hown.height, ih.2, unfinished, zero_add]
    push_cast
    rfl

/-! ## Events -/

/-- Events are read without an error: their calls, and what is being read before and after them. -/
inductive Reads (origin : Origin) : Draft → List Event → List Call → Draft → Prop
  | nil (d : Draft) : Reads origin d [] [] d
  | cons {d d' d'' : Draft} {event : Event} {es : List Event} {cs cs' : List Call}
      (h : XmlReader.event origin d event = ⟨cs, .ok d'⟩) (hrest : Reads origin d' es cs' d'') :
      Reads origin d (event :: es) (cs ++ cs') d''

theorem exists_reads (h : (events origin d es).result = .ok ()) :
    ∃ d', Reads origin d es (events origin d es).calls d' := by
  induction es generalizing d with
  | nil => exact ⟨d, .nil d⟩
  | cons e es ih =>
    rcases hevents : events origin d (e :: es) with ⟨cs, r⟩
    rw [hevents] at h
    cases h
    obtain ⟨cs₁, d₁, cs₂, h₁, h₂, rfl⟩ := Script.bind_eq_ok_iff.1 hevents
    obtain ⟨d', hrest⟩ := ih (d := d₁) (by rw [h₂])
    rw [h₂] at hrest
    exact ⟨d', .cons h₁ hrest⟩

theorem Reads.of_append {fs : List Event} (h : Reads origin d (es ++ fs) cs d'') :
    ∃ cs₁ d' cs₂, Reads origin d es cs₁ d' ∧ Reads origin d' fs cs₂ d'' ∧ cs = cs₁ ++ cs₂ := by
  induction es generalizing d cs with
  | nil => exact ⟨[], d, cs, .nil d, h, rfl⟩
  | cons e es ih =>
    cases h with
    | cons he hrest =>
      obtain ⟨cs₁, d₁, cs₂, hes, hfs, rfl⟩ := ih hrest
      exact ⟨_, d₁, cs₂, .cons he hes, hfs, (List.append_assoc ..).symm⟩

theorem Reads.fault_notMem (h : Reads origin d es cs d') : .fault ∉ es := by
  induction h with
  | nil => exact List.not_mem_nil
  | cons he _ ih =>
    rw [List.mem_cons, not_or]
    refine ⟨?_, ih⟩
    rintro rfl
    cases he

/-! ## The node that waits to be opened -/

/-- Whether a node waits to be opened. -/
def waits (d : Draft) : Bool := d.node.isSome

/-- The call that opens the node that waits, before and after events in which something begins or
not. -/
inductive Opens : Bool → Bool → Bool → List Call → Prop
  | silent (waiting : Bool) : Opens waiting false waiting []
  | opened : Opens false true false []
  | opens (name type : Option String) (mixins : List String) :
      Opens true true false [.openNode name type mixins]

/-- Where something begins, no node waits afterwards. -/
theorem Opens.idle {w w' : Bool} {own : List Call} (h : Opens w true w' own) : w' = false := by
  cases h <;> rfl

theorem Opens.eq_nil {b w : Bool} {own : List Call} (h : Opens false b w own) : own = [] := by
  cases h <;> rfl

/-- What begins first opens the node that waits. -/
theorem Opens.append {w₁ w₂ w₃ b₁ b₂ : Bool} {own₁ own₂ cs₁ : List Call}
    (h₁ : Opens w₁ b₁ w₂ own₁) (hcs₁ : b₁ = false → cs₁ = []) (h₂ : Opens w₂ b₂ w₃ own₂)
    (cs₂ : List Call) :
    ∃ own, Opens w₁ (b₁ || b₂) w₃ own ∧ own₁ ++ cs₁ ++ (own₂ ++ cs₂) = own ++ (cs₁ ++ cs₂) := by
  cases h₁ with
  | silent => exact ⟨own₂, h₂, by simp [hcs₁ rfl]⟩
  | opened => cases h₂ <;> exact ⟨[], .opened, by simp⟩
  | opens name type mixins => cases h₂ <;> exact ⟨_, .opens name type mixins, by simp⟩

theorem openNode_eq (d : Draft) :
    ∃ own, Opens (waits d) true false own ∧
      openNode d = ⟨own, .ok { d with node := none }⟩ := by
  rcases d with ⟨node | n, p, t⟩
  · exact ⟨[], .opened, rfl⟩
  · exact ⟨_, .opens n.name n.type n.mixins, rfl⟩

/-! ## Scripts of events -/

theorem calls_modified (place : String) (s : Option String) : (modified place s).calls = [] := by
  unfold modified
  split
  · rfl
  · split <;> rfl

theorem calls_moments (place : String) (as : List (String × String)) :
    (moments place as).calls = [] := by
  unfold moments
  generalize as.filter (fun a => a.1 == "lastModified") = l
  induction l with
  | nil => rfl
  | cons a l ih =>
    rw [Script.each, Script.bind_calls, Script.bind_calls, calls_modified]
    split <;> split <;> simp_all [Script.done]

theorem fileCalls_importFile {location : String} {as : List (String × String)}
    (he : IsFile e) (hlocation : origin.location ≠ none)
    (h : importFile origin location as = ⟨cs, .ok ()⟩) : FileCalls origin e cs := by
  unfold importFile at h
  by_cases hcount : as.length < 2 ∨ 3 < as.length
  · rw [if_pos hcount] at h
    cases h
  rw [if_neg hcount] at h
  obtain ⟨cs₁, _, cs₂, hmoments, hrest, rfl⟩ := Script.bind_eq_ok_iff.1 h
  obtain ⟨cs₃, told, cs₄, hmodified, hsource, rfl⟩ := Script.bind_eq_ok_iff.1 hrest
  obtain rfl : cs₁ = [] := by simpa [hmoments] using calls_moments location as
  obtain rfl : cs₃ = [] := by
    simpa [hmodified] using calls_modified location (last? as "lastModified")
  split at hsource
  · cases hsource
  · dsimp only at hsource
    split at hsource
    · cases hsource
    · cases hsource
      exact .file _ _ _ _ he hlocation

theorem fileCalls_file (he : IsFile e) (h : file origin e = ⟨cs, .ok ()⟩) :
    FileCalls origin e cs := by
  unfold file at h
  split at h
  · next hlocation =>
    cases h
    exact .skipped fun _ => hlocation
  · next location hlocation =>
    split at h
    · cases h
    · exact fileCalls_importFile he (by simp [hlocation]) h

theorem calls_propertyType (p : PropertyDraft) : (propertyType p).calls = [] := by
  unfold propertyType
  split
  · rfl
  · split <;> rfl

theorem propertyCalls_property {p : PropertyDraft} (he : e.name = "property")
    (h : property origin p = ⟨cs, .ok ()⟩) : PropertyCalls e cs := by
  unfold property at h
  split at h
  · cases h
  · next name hname =>
    obtain ⟨cs₁, type, cs₂, htype, hvalues, rfl⟩ := Script.bind_eq_ok_iff.1 h
    obtain rfl : cs₁ = [] := by simpa [htype] using calls_propertyType p
    rw [List.nil_append]
    split at hvalues
    · cases hvalues
      exact .multiple _ _ _ he
    · cases hvalues
      exact .single _ _ _ he
    · cases hvalues
      exact .skipped

/-- What the beginning of an element opens, and the calls of its file. -/
theorem opened_cases (h : opened origin d e = ⟨cs, .ok d'⟩) :
    ∃ w own file, Opens (waits d) (begins e) w own ∧ FileCalls origin e file ∧
      cs = own ++ file ∧ waits d' = (w || decide (e.name = "node")) := by
  unfold opened at h
  split at h
  · next hname =>
    split at h
    · next hspace =>
      obtain ⟨own, hown, hopen⟩ := openNode_eq d
      obtain ⟨cs₁, d₁, cs₂, h₁, hrest, rfl⟩ := Script.bind_eq_ok_iff.1 h
      obtain ⟨cs₃, _, cs₄, hfile, hdone, rfl⟩ := Script.bind_eq_ok_iff.1 hrest
      cases h₁.symm.trans hopen
      cases hdone
      exact ⟨false, own, cs₃, by simpa [begins, IsFile, hname, hspace] using hown,
        fileCalls_file ⟨hname, hspace⟩ hfile, by simp, by simp [waits, hname]⟩
    · next hspace =>
      cases h
      exact ⟨waits d, [], [], by simpa [begins, IsFile, hname, hspace] using .silent _,
        .skipped fun he => absurd he.2 hspace, rfl, by simp [hname]⟩
  · next hname =>
    obtain ⟨own, hown, hopen⟩ := openNode_eq d
    obtain ⟨cs₁, d₁, cs₂, h₁, hdone, rfl⟩ := Script.bind_eq_ok_iff.1 h
    cases h₁.symm.trans hopen
    cases hdone
    exact ⟨false, own, [], by simpa [begins, hname] using hown,
      .skipped fun he => absurd (hname.symm.trans he.1) (by decide), rfl, by simp [waits, hname]⟩
  · next hname =>
    obtain ⟨own, hown, hopen⟩ := openNode_eq d
    obtain ⟨cs₁, d₁, cs₂, h₁, hdone, rfl⟩ := Script.bind_eq_ok_iff.1 h
    cases h₁.symm.trans hopen
    cases hdone
    exact ⟨false, own, [], by simpa [begins, hname] using hown,
      .skipped fun he => absurd (hname.symm.trans he.1) (by decide), rfl, by simp [waits, hname]⟩
  · next hfile hproperty hnode =>
    replace hfile : e.name ≠ "file" := hfile
    replace hproperty : e.name ≠ "property" := hproperty
    replace hnode : e.name ≠ "node" := hnode
    cases h
    exact ⟨waits d, [], [], by simpa [begins, IsFile, hfile, hproperty, hnode] using .silent _,
      .skipped fun he => absurd he.1 hfile, rfl, by simp [hnode]⟩

/-- The end of a node element opens the node if it waits, and closes it. -/
theorem closed_node (h : closed origin d "node" = ⟨cs, .ok d'⟩) :
    ∃ own, Opens (waits d) true false own ∧ cs = own ++ [.closeNode] ∧ waits d' = false := by
  obtain ⟨own, hown, hopen⟩ := openNode_eq { d with text := "" }
  obtain ⟨cs₁, d₁, cs₂, h₁, hrest, rfl⟩ := Script.bind_eq_ok_iff.1 h
  cases h₁.symm.trans hopen
  cases hrest
  exact ⟨own, hown, rfl, rfl⟩

theorem waits_named {name : String} (h : named origin d name = ⟨cs, .ok d'⟩) :
    cs = [] ∧ waits d' = waits d := by
  unfold named at h
  split at h
  · cases h
    exact ⟨rfl, rfl⟩
  · next hnode =>
    cases h
    exact ⟨rfl, by simp [waits, hnode]⟩
  · cases h

theorem waits_ofProperty {element : String} {f : PropertyDraft → PropertyDraft}
    (h : ofProperty origin d element f = ⟨cs, .ok d'⟩) : cs = [] ∧ waits d' = waits d := by
  unfold ofProperty at h
  split at h
  · cases h
    exact ⟨rfl, rfl⟩
  · cases h

theorem waits_ofNode {element : String} {f : NodeDraft → NodeDraft}
    (h : ofNode origin d element f = ⟨cs, .ok d'⟩) : cs = [] ∧ waits d' = waits d := by
  unfold ofNode at h
  split at h
  · next hnode =>
    cases h
    exact ⟨rfl, by simp [waits, hnode]⟩
  · cases h

/-- The end of another element has the calls of its property, and opens no node. -/
theorem closed_other (he : e.name ≠ "node") (h : closed origin d e.name = ⟨cs, .ok d'⟩) :
    PropertyCalls e cs ∧ waits d' = waits d := by
  unfold closed at h
  dsimp only at h
  split at h
  · next hname =>
    split at h
    · cases h
      exact ⟨.skipped, rfl⟩
    · obtain ⟨cs₁, _, cs₂, hproperty, hdone, rfl⟩ := Script.bind_eq_ok_iff.1 h
      cases hdone
      rw [List.append_nil]
      exact ⟨propertyCalls_property hname hproperty, rfl⟩
  · obtain ⟨rfl, hwaits⟩ := waits_named h
    exact ⟨.skipped, hwaits⟩
  · obtain ⟨rfl, hwaits⟩ := waits_ofProperty h
    exact ⟨.skipped, hwaits⟩
  · obtain ⟨rfl, hwaits⟩ := waits_ofProperty h
    exact ⟨.skipped, hwaits⟩
  · obtain ⟨rfl, hwaits⟩ := waits_ofProperty h
    exact ⟨.skipped, hwaits⟩
  · next hname => exact absurd hname he
  · obtain ⟨rfl, hwaits⟩ := waits_ofNode h
    exact ⟨.skipped, hwaits⟩
  · obtain ⟨rfl, hwaits⟩ := waits_ofNode h
    exact ⟨.skipped, hwaits⟩
  · cases h
    exact ⟨.skipped, rfl⟩

/-! ## Fragments and documents -/

theorem FileCalls.eq_nil (h : FileCalls origin e cs) (he : ¬ IsFile e) : cs = [] := by
  cases h with
  | file _ _ _ _ hfile => exact absurd hfile he
  | skipped => rfl

/-- What does not begin anything has only the calls from inside of it. -/
theorem Wraps.eq_inner (h : Wraps origin e inner cs) (he : begins e = false) : cs = inner := by
  have hnone : ¬ (e.name = "node" ∨ e.name = "property" ∨ IsFile e) := of_decide_eq_false he
  rw [not_or, not_or] at hnone
  cases h with
  | node _ _ _ hname => exact absurd hname hnone.1
  | other _ hfile hproperty =>
    obtain rfl := hfile.eq_nil hnone.2.2
    cases hproperty with
    | skipped => simp
    | single _ _ _ hname | multiple _ _ _ hname => exact absurd hname hnone.2.1

theorem Yields.eq_nil {c : Fragment} (h : Yields origin c cs) (hc : beginsIn c = false) :
    cs = [] := by
  induction h with
  | empty => rfl
  | text _ _ ih => exact ih hc
  | element _ hown _ ihinside ihrest =>
    simp only [beginsIn, Bool.or_eq_false_iff] at hc
    obtain ⟨⟨he, hinside⟩, hrest⟩ := hc
    rw [hown.eq_inner he, ihinside hinside, ihrest hrest, List.append_nil]

/-- The calls of the beginning of an element and those from inside of it. -/
theorem starts_of_opened {cs₁ own₂ : List Call} {b w : Bool}
    (hopened : opened origin d e = ⟨cs₁, .ok d'⟩) (hinside : Opens (waits d') b w own₂)
    (inner : List Call) :
    ∃ w' own calls, Opens (waits d) (begins e || b) w' own ∧ Starts origin e inner b calls ∧
      cs₁ ++ (own₂ ++ inner) = own ++ calls := by
  obtain ⟨w₁, own₁, file, hown₁, hfile, rfl, hwaits⟩ := opened_cases hopened
  by_cases hname : e.name = "node"
  · have hbegins : begins e = true := by simp [begins, hname]
    obtain rfl := hfile.eq_nil fun he => absurd (hname.symm.trans he.1) (by decide)
    rw [hbegins] at hown₁ ⊢
    refine ⟨w₁, own₁, own₂ ++ inner, hown₁, ?_, by simp⟩
    rw [hwaits, decide_eq_true hname, Bool.or_true] at hinside
    cases hinside with
    | silent => exact .dropped hname
    | opens name type mixins => exact .node name type mixins hname
  · rw [hwaits, decide_eq_false hname, Bool.or_false] at hinside
    obtain ⟨own, hown, heq⟩ := hown₁.append
      (fun he => hfile.eq_nil fun hf => by simp [begins, hf] at he) hinside inner
    exact ⟨w, own, file ++ inner, hown, .other b hname hfile, heq⟩

/-- The calls of an element: of its beginning, from inside of it, and of its end. -/
theorem wraps_of_opened_of_closed {cs₁ own₂ cs₃ : List Call} {b : Bool} {d₁ d₂ : Draft}
    (hopened : opened origin d e = ⟨cs₁, .ok d₁⟩) (hinside : Opens (waits d₁) b (waits d₂) own₂)
    (hinner : b = false → inner = []) (hclosed : closed origin d₂ e.name = ⟨cs₃, .ok d'⟩) :
    ∃ own calls, Opens (waits d) (begins e || b) (waits d') own ∧ Wraps origin e inner calls ∧
      cs₁ ++ (own₂ ++ inner ++ cs₃) = own ++ calls := by
  obtain ⟨w₁, own₁, file, hown₁, hfile, rfl, hwaits⟩ := opened_cases hopened
  by_cases hname : e.name = "node"
  · have hbegins : begins e = true := by simp [begins, hname]
    obtain rfl := hfile.eq_nil fun he => absurd (hname.symm.trans he.1) (by decide)
    rw [hname] at hclosed
    obtain ⟨own₃, hown₃, rfl, hwaits'⟩ := closed_node hclosed
    rw [hwaits, decide_eq_true hname, Bool.or_true] at hinside
    obtain ⟨own, hown, heq⟩ := hinside.append hinner hown₃ [.closeNode]
    rw [Bool.or_true] at hown
    rw [hbegins] at hown₁ ⊢
    rw [hwaits', heq]
    cases hown with
    | opens name type mixins =>
      obtain rfl := hown₁.idle
      exact ⟨own₁, _, hown₁, .node name type mixins hname, by simp⟩
  · rw [hwaits, decide_eq_false hname, Bool.or_false] at hinside
    obtain ⟨hproperty, hwaits'⟩ := closed_other hname hclosed
    obtain ⟨own, hown, heq⟩ := hown₁.append
      (fun he => hfile.eq_nil fun hf => by simp [begins, hf] at he) hinside inner
    rw [← hwaits'] at hown
    refine ⟨own, file ++ inner ++ cs₃, hown, .other hname hfile hproperty, ?_⟩
    rw [← List.append_assoc, heq, List.append_assoc]

/-- **The calls of a fragment**, after the one that opens the node that waits. -/
theorem reads_fragment {c : Fragment} (h : Reads origin d c.events cs d') :
    ∃ own rest, Opens (waits d) (beginsIn c) (waits d') own ∧ Yields origin c rest ∧
      cs = own ++ rest := by
  induction c generalizing d cs d' with
  | empty =>
    cases h
    exact ⟨[], [], .silent _, .empty, rfl⟩
  | text s rest ih =>
    cases h with
    | cons htext hrest =>
      cases htext
      obtain ⟨own, rest, hown, hyields, rfl⟩ := ih hrest
      exact ⟨own, rest, hown, .text s hyields, rfl⟩
  | element e inside rest ihinside ihrest =>
    cases h with
    | cons hopened htail =>
      obtain ⟨cs₂, d₂, cs₃, hinside, hend, rfl⟩ := htail.of_append
      cases hend with
      | cons hclosed hrest =>
        obtain ⟨own₂, inner, hown₂, hinner, rfl⟩ := ihinside hinside
        obtain ⟨own₄, cs₄, hown₄, hyields, rfl⟩ := ihrest hrest
        obtain ⟨own, calls, hown, hwraps, heq⟩ :=
          wraps_of_opened_of_closed hopened hown₂ hinner.eq_nil hclosed
        have hcalls : (begins e || beginsIn inside) = false → calls = [] := by
          intro hnone
          rw [Bool.or_eq_false_iff] at hnone
          rw [hwraps.eq_inner hnone.1, hinner.eq_nil hnone.2]
        -- only one of the two can open the node that waits, and nothing comes before it
        obtain ⟨own', hown', heq'⟩ := hown.append hcalls hown₄ cs₄
        refine ⟨own', calls ++ cs₄, hown', .element hinner hwraps hyields, ?_⟩
        rw [← heq', ← heq]
        simp only [List.append_assoc]

/-- **The calls of a document**, after the one that opens the node that waits. -/
theorem reads_outline {o : Outline} (h : Reads origin d o.events cs d') :
    ∃ w own rest, Opens (waits d) (beginsWithin o) w own ∧ Issues origin o rest ∧
      cs = own ++ rest := by
  induction o generalizing d cs with
  | whole c =>
    obtain ⟨own, rest, hown, hyields, rfl⟩ := reads_fragment h
    exact ⟨_, own, rest, hown, .whole hyields, rfl⟩
  | cut before e inside ih =>
    obtain ⟨cs₁, d₁, cs₂, hbefore, htail, rfl⟩ := Reads.of_append h
    cases htail with
    | cons hopened hinside =>
      obtain ⟨own₁, rest₁, hown₁, hyields, rfl⟩ := reads_fragment hbefore
      obtain ⟨w, own₃, inner, hown₃, hissues, rfl⟩ := ih hinside
      obtain ⟨w', own₂, calls, hown₂, hstarts, heq⟩ := starts_of_opened hopened hown₃ inner
      obtain ⟨own, hown, heq'⟩ := hown₁.append hyields.eq_nil hown₂ calls
      refine ⟨w', own, rest₁ ++ calls, ?_, .cut hyields hissues hstarts, ?_⟩
      · rwa [beginsWithin, Bool.or_assoc]
      · rw [heq, heq']

/-- **The calls of an XML document lie one in another like its elements.** The document is read as
an outline. The calls from inside of a node element stand between the one that opens the node and
the one that closes it, and no call closes a node that is not open. The nodes that are left open are
the unfinished ones, of which a whole document has none. -/
theorem calls_nested (origin : Origin) (bytes : Bytes)
    (h : (script origin bytes).result = .ok ()) :
    (∃ o : Outline, o.events = Event.ofBytes bytes) ∧
      ∀ o : Outline, o.events = Event.ofBytes bytes →
        Issues origin o (script origin bytes).calls ∧
          Call.IsNested (script origin bytes).calls ∧
          Call.height (script origin bytes).calls = unfinished o := by
  obtain ⟨d', hreads⟩ := exists_reads h
  refine ⟨Event.exists_outline hreads.fault_notMem, ?_⟩
  intro o ho
  rw [← ho] at hreads
  obtain ⟨w, own, rest, hown, hissues, hcalls⟩ := reads_outline hreads
  rw [Opens.eq_nil hown, List.nil_append, ho] at hcalls
  rw [script, hcalls]
  exact ⟨hissues, hissues.isNested_and_height⟩

/-- No files, and a document without a name. -/
def apart : Origin := ⟨⟨[], List.nodup_nil⟩, none, 0⟩

/-- A document that ends inside of two nodes, after a property of the outer one. -/
def unfinishedText : String :=
  "<node><property><name>a</name><value>1</value></property><node>"

/-- An element without a namespace and without attributes. -/
def plainElement (name : String) : Element := ⟨name, none, []⟩

/-- The outline of the document. -/
def unfinishedOutline : Outline :=
  .cut .empty (plainElement "node")
    (.cut
      (.element (plainElement "property")
        (.element (plainElement "name") (.text "a" .empty)
          (.element (plainElement "value") (.text "1" .empty) .empty))
        .empty)
      (plainElement "node") (.whole .empty))

theorem calls_nested_unfinishedText :
    (script apart (Utf8.encode unfinishedText)).result = .ok () ∧
      unfinishedOutline.events = Event.ofBytes (Utf8.encode unfinishedText) ∧
      Call.height (script apart (Utf8.encode unfinishedText)).calls = 1 := by
  have hresult : (script apart (Utf8.encode unfinishedText)).result = .ok () := by
    decide +kernel
  have hevents : unfinishedOutline.events = Event.ofBytes (Utf8.encode unfinishedText) := by
    decide +kernel
  obtain ⟨-, hnested⟩ := calls_nested apart (Utf8.encode unfinishedText) hresult
  obtain ⟨-, -, hheight⟩ := hnested unfinishedOutline hevents
  exact ⟨hresult, hevents, hheight.trans (by decide)⟩

/-- Whether an event is the beginning of a node element. -/
def beginsNode : Event → Bool
  | .opened e => e.name == "node"
  | _ => false

/-- Whether a call opens a node that is not that of a file. -/
def opensNode : Call → Bool
  | .openNode .. => true
  | _ => false

/-- **A document that ends inside of a node is read without an error,** and the node that has only a
name is dropped. -/
theorem unfinished_node_dropped :
    ¬ ∀ (origin : Origin) (bytes : Bytes), (script origin bytes).result = .ok () →
      (script origin bytes).calls.countP opensNode = (Event.ofBytes bytes).countP beginsNode ∧
        Call.height (script origin bytes).calls = 0 := by
  intro hclaim
  have hresult : (script apart (Utf8.encode "<node><name>a</name>")).result = .ok () := by
    decide +kernel
  exact absurd (hclaim _ _ hresult).1 (by decide +kernel)

end XmlReader

end ContentImport
