import ContentImport.Proofs.Import.Sourced
import ContentImport.Proofs.Time.Timestamp
import ContentImport.Proofs.Value

/-!
# Typed properties

The values of a list have its declared type, and dates have the shape of date values. What is read
from a text is like that, and so are references, whether they are written at once or later. The date
of a file is not read but made from a moment, and in a year that is written with a sign it has
another shape: such a date is what may be stored besides (`MayHold`). Every request keeps that
(`HoldsTyped.answer`).
-/

namespace ContentImport

/-! ## Properties -/

/-- Whether a value is one that its text is read as, which is asked of dates alone. -/
def Value.IsAccepted : Value → Prop
  | .date text => Value.parse .date text = .ok (.date text)
  | _ => True

/-- The values of a property have the declared type, and the dates among them are accepted. -/
def Property.IsWellTyped : Property → Prop
  | .single v => v.IsAccepted
  | .multiple type vs => ∀ v ∈ vs, v.type = type ∧ v.IsAccepted

/-- All properties of all nodes are well typed. -/
def Repository.IsWellTyped (r : Repository) : Prop :=
  ∀ owner name p, r.property? owner name = some p → p.IsWellTyped

theorem Value.isAccepted_of_parse {type : ValueType} {s : String} {v : Value}
    (hv : parse type s = .ok v) : v.IsAccepted := by
  cases v with
  | date text =>
    rw [parse_eq_ok_iff] at hv
    have htype := type_of_parse? hv
    have hdouble : type ≠ .double := by
      rintro rfl
      cases htype
    exact parse_eq_ok_iff.2 (parse?_text hdouble hv)
  | _ => trivial

/-- The text of a moment is accepted as a date just if the year is written without a sign. -/
theorem Value.parse_date_of_render? {moment : Int} {text : String}
    (htext : Timestamp.render? moment = some text) :
    Value.parse .date text =
      if Timestamp.HasPlainYear moment then .ok (.date text) else .error ⟨.date, text⟩ := by
  simp only [← Timestamp.isDateText_of_render? htext, parse, parse?]
  cases Timestamp.isDateText text <;> rfl

theorem Property.isWellTyped_references (ids : List String) :
    (Property.multiple .reference (ids.map .reference)).IsWellTyped := by
  intro v hv
  obtain ⟨id, -, rfl⟩ := List.mem_map.1 hv
  exact ⟨rfl, trivial⟩

/-- An undefined type is declared as that of strings. -/
theorem Property.isWellTyped_of_mapM {type : ValueType} {texts : List String} {vs : List Value}
    (hvs : texts.mapM (Value.parse (if type = .undefined then .string else type)) = .ok vs) :
    (Property.multiple (if type = .undefined then .string else type) vs).IsWellTyped := by
  intro v hv
  obtain ⟨text, -, htext⟩ := exists_of_mem_mapM hvs hv
  refine ⟨?_, Value.isAccepted_of_parse htext⟩
  rw [Value.type_of_parse? (Value.parse_eq_ok_iff.1 htext)]
  by_cases htype : type = .undefined
  · rw [if_pos htype]
    rfl
  · rw [if_neg htype, if_neg htype]

/-- The root of a new repository has no properties. -/
theorem Repository.isWellTyped_new (registry : Registry) :
    (Repository.new registry).IsWellTyped := by
  intro owner name p hp
  rw [property?, node?, new, Table.get?_insert] at hp
  split at hp <;> cases hp

namespace Import

variable {moments : Int → Prop} {i : Import} {node name : String} {clock : Int}

/-! ## Requests -/

/-- What an importer is asked for. -/
inductive Request
  | prepare (target : String) (name : Option String)
  | action (a : Action)

/-- The import that a request leaves, whether it fails or not. -/
def answer (i : Import) : Request → Import
  | .prepare target name => (outcome (prepare target name) i).2
  | .action a => i.after a

/-- The moment that a request asks to write for a file. -/
def Request.stamps (i : Import) : Request → List Int
  | .action (.call (.openFile _ _ _ modified)) => [i.stamp modified]
  | _ => []

/-- The moments that requests ask to write, each from the state that it finds. -/
def stamps (i : Import) : List Request → List Int
  | [] => []
  | q :: rest => q.stamps i ++ stamps (i.answer q) rest

/-! ## The invariant -/

/-- A property is well typed, or it is the date of a file for one of some moments. -/
def MayHold (moments : Int → Prop) (name : String) (p : Property) : Prop :=
  p.IsWellTyped ∨ name = modifiedName ∧ ∃ moment text, moments moment ∧
    Timestamp.render? moment = some text ∧ p = .single (.date text)

/-- All that nodes hold they may hold. -/
def HoldsTyped (moments : Int → Prop) (i : Import) : Prop :=
  ∀ owner name p, i.repository.property? owner name = some p → MayHold moments name p

/-- An operation sets a property only to what a node may hold. -/
def SetsTyped (moments : Int → Prop) : Repository.Operation → Prop
  | .setProperty _ name p => MayHold moments name p
  | _ => True

theorem isStable_typed : IsStable (SetsTyped moments) (HoldsTyped moments) where
  principals := by
    intro op hop
    cases op <;> trivial
  operation := by
    intro op hop i hi owner name p hp
    refine (property?_of_after op hp).elim (hi owner name p) ?_
    rintro rfl
    exact hop
  notes := fun _ _ _ _ hi => hi
  records := fun _ _ _ hi => hi

/-- Nothing that an importer does to the repository moves its clock. -/
theorem isStable_clock : IsStable (fun _ => True) fun i : Import => i.clock = clock where
  principals := fun _ _ => trivial
  operation := fun _ _ _ hi => hi
  notes := fun _ _ _ _ hi => hi
  records := fun _ _ _ hi => hi

/-! ## Nodes and files -/

theorem typed_openNode (name : Option String) (type : Option String) (mixins : List String) :
    Keeps (HoldsTyped moments) (openNode name type mixins) :=
  isStable_typed.openNode (fun _ _ _ _ hi => hi) (fun _ _ _ => isStable_typed.create trivial)
    (fun _ _ => trivial) (fun _ _ _ _ => trivial) name type mixins

/-- The media type and the data of a file are no dates. -/
theorem typed_openFile {modified : Int}
    (hmoment : moments (if modified ≤ 0 then clock else modified)) (name : String)
    (data : Except FileError Bytes) (mediaType : Option String) :
    Keeps (fun i => HoldsTyped moments i ∧ i.clock = clock)
      (openFile name data mediaType modified) := by
  have hstable : IsStable (fun op => SetsTyped moments op ∧ True)
      fun i => HoldsTyped moments i ∧ i.clock = clock := isStable_typed.and isStable_clock
  refine keeps_openFile (keeps_current fun _ => trivial)
    (fun _ _ => hstable.openStoredFile (fun _ _ _ => ⟨trivial, trivial⟩) (fun _ _ hi => hi) _
      modified)
    (fun name type => hstable.openNode (fun _ _ _ _ hi => hi)
      (fun _ _ _ => hstable.create ⟨trivial, trivial⟩) (fun _ _ => ⟨trivial, trivial⟩)
      (fun _ _ _ _ => ⟨trivial, trivial⟩) name type []) fun file name => ?_
  refine keeps_writeContent (fun text => ?_) (fun i hi text htext => ?_) fun bytes => ?_
  · exact hstable.setFileProperty (keeps_current fun _ => ⟨.inl trivial, trivial⟩)
  · rw [stamp, hi.2] at htext
    exact hstable.setFileProperty
      (keeps_current fun _ => ⟨.inr ⟨rfl, _, text, hmoment, htext, rfl⟩, trivial⟩)
  · exact hstable.setFileProperty (keeps_current fun _ => ⟨.inl trivial, trivial⟩)

/-! ## Properties -/

theorem typed_lookUp (reference : String) :
    Keeps (HoldsTyped moments) (lookUp node name reference) fun _ => True :=
  keeps_lookUp (fun _ _ _ _ => trivial) trivial fun _ hi _ => hi

theorem typed_setProperty (name : String) (type : ValueType) (text : String) :
    Keeps (HoldsTyped moments) (setProperty name type text) := by
  rw [setProperty_eq]
  refine keeps_setWith (isStable_typed.mention name) (keeps_current fun _ => trivial)
    fun node _ _ _ _ => ?_
  exact keeps_assign (fun _ => typed_lookUp text) (fun _ _ => isStable_typed.write (.inl trivial))
    (isStable_typed.recordVersionable node) fun v _ _ hv =>
      isStable_typed.write (.inl (Value.isAccepted_of_parse hv))

theorem typed_setProperties (name : String) (type : ValueType) (texts : List String) :
    Keeps (HoldsTyped moments) (setProperties name type texts) := by
  rw [setProperties_eq]
  refine keeps_setWith (isStable_typed.mention name) (keeps_current fun _ => trivial)
    fun node _ _ _ _ => ?_
  exact keeps_assignAll (fun _ => typed_lookUp) (fun _ _ _ => .modify fun _ hi => hi)
    (fun _ _ => isStable_typed.write (.inl (Property.isWellTyped_references _)))
    fun vs _ hvs => isStable_typed.write (.inl (Property.isWellTyped_of_mapM hvs))

/-- What is written in the end for references that waited are references. -/
theorem typed_settledProperty (path node id : String) :
    Keeps (HoldsTyped moments) (settledProperty path node id) Property.IsWellTyped := by
  refine .bind .get fun i _ => ?_
  split
  · exact .pure trivial
  · exact .bind (.modify fun _ hj => hj) fun _ _ => .pure (Property.isWellTyped_references _)

theorem typed_closeNode : Keeps (HoldsTyped moments) closeNode := by
  refine keeps_closeNode fun _ _ node _ _ => ⟨fun _ hj => hj,
    keeps_settleNode (fun _ _ _ => isStable_typed.removeUnmentioned fun _ => trivial) ?_⟩
  refine keeps_settleReferences (fun _ hi => hi) fun _ _ _ _ path _ _ _ n _ => ?_
  exact keeps_settleProperty (typed_settledProperty path node n.identifier) fun owner _ p hp =>
    isStable_typed.onRepository (.setProperty owner (Path.name path) p) (.inl hp) fun _ => rfl

/-! ## Requests one after the other -/

theorem typed_prepare (target : String) (name : Option String) :
    Keeps (HoldsTyped moments) (prepare target name) :=
  .bind .get fun _ _ => .guarded (fun _ => .throw _) fun _ => .modify fun _ hi => hi

theorem HoldsTyped.after (h : HoldsTyped moments i) (a : Action)
    (hstamp : ∀ name data mediaType modified, a = .call (.openFile name data mediaType modified) →
      moments (i.stamp modified)) : HoldsTyped moments (i.after a) := by
  cases a with
  | finish => exact (isStable_typed.finish (fun _ => trivial) i h).1
  | wait => exact h
  | call c =>
    cases c with
    | openNode name type mixins => exact (typed_openNode name type mixins i h).1
    | closeNode => exact (typed_closeNode i h).1
    | setProperty name type text => exact (typed_setProperty name type text i h).1
    | setProperties name type texts => exact (typed_setProperties name type texts i h).1
    | openFile name data mediaType modified =>
      have hmoment := hstamp name data mediaType modified rfl
      exact (typed_openFile hmoment name data mediaType i ⟨h, rfl⟩).1.1
    | openPath path type =>
      have hopen : Keeps (HoldsTyped moments) (openPath path type) :=
        isStable_typed.openPath (fun _ _ _ => trivial) (fun _ _ hi => hi) path type
      exact (hopen.discard i h).1
    | createUser id password extra => exact (isStable_typed.createUser id password extra i h).1
    | createGroup id members extra => exact (isStable_typed.createGroup id members extra i h).1
    | setEntries => exact (isStable_typed.setEntries (keeps_current fun _ => trivial) i h).1

/-- **Every request leaves what nodes may hold,** if the moment that it writes for a file is one of
those that may be written. -/
theorem HoldsTyped.answer (h : HoldsTyped moments i) (q : Request)
    (hstamp : ∀ moment ∈ q.stamps i, moments moment) : HoldsTyped moments (i.answer q) := by
  cases q with
  | prepare target name => exact (typed_prepare target name i h).1
  | action a =>
    refine h.after a ?_
    rintro name data mediaType modified rfl
    exact hstamp _ (List.mem_singleton_self _)

theorem HoldsTyped.foldl_answer {requests : List Request} (h : HoldsTyped moments i)
    (hstamps : ∀ moment ∈ i.stamps requests, moments moment) :
    HoldsTyped moments (requests.foldl Import.answer i) := by
  induction requests generalizing i with
  | nil => exact h
  | cons q rest ih =>
    rw [stamps, List.forall_mem_append] at hstamps
    exact ih (h.answer q hstamps.1) hstamps.2

/-- **What nodes hold after any requests is well typed,** if it was before, except for the date of a
file whose moment lies in a year that is written with a sign: it is stored, but its text is not
accepted as a date. -/
theorem wellTyped_answers (options : ImportOptions) (clock : Int) (r : Repository)
    (hr : r.IsWellTyped) (requests : List Request) :
    let left := (requests.foldl answer (new options clock r)).repository
    ∀ owner name p, left.property? owner name = some p →
      p.IsWellTyped ∨
        name = modifiedName ∧ ∃ moment ∈ (new options clock r).stamps requests, ∃ text,
          Timestamp.render? moment = some text ∧ p = .single (.date text) ∧
            ¬ Timestamp.HasPlainYear moment ∧ Value.parse .date text = .error ⟨.date, text⟩ := by
  intro left owner name p hp
  have hnew : HoldsTyped (· ∈ (new options clock r).stamps requests) (new options clock r) :=
    fun owner name p hp => .inl (hr owner name p hp)
  rcases (hnew.foldl_answer fun _ hmoment => hmoment) owner name p hp with
    htyped | ⟨hname, moment, text, hmoment, htext, rfl⟩
  · exact .inl htyped
  · have hparse := Value.parse_date_of_render? htext
    by_cases hyear : Timestamp.HasPlainYear moment
    · rw [if_pos hyear] at hparse
      exact .inl hparse
    · rw [if_neg hyear] at hparse
      exact .inr ⟨hname, moment, hmoment, text, htext, rfl, hyear, hparse⟩

/-- A list without a type, a list of references of which one waits, and a file of the year 10000. -/
def typingRequests : List Request :=
  [ .prepare "/" none,
    .action (.call (.setProperties "texts" .undefined ["a", "b"])),
    .action (.call (.setProperties "links" .reference ["/", "f"])),
    .action (.call (.setProperty "day" .date "2009-02-04T10:11:12.000+0100")),
    .action (.call (.openFile "f" (.ok []) none 253402300800000)),
    .action (.call .closeNode), .action (.call .closeNode) ]

theorem wellTyped_answers_year10000 :
    let left := (typingRequests.foldl answer (new {} 0 (.new .standard))).repository
    (Repository.new .standard).IsWellTyped ∧
      left.property? "/" "texts" = some (.multiple .string [.string "a", .string "b"]) ∧
      left.property? "/" "links" = some (.multiple .reference
        [.reference (Repository.identifier 0), .reference (Repository.identifier 1)]) ∧
      left.property? "/f/jcr:content" modifiedName =
        some (.single (.date "+10000-01-01T00:00:00.000+00:00")) ∧
      ∀ owner name p, left.property? owner name = some p →
        p.IsWellTyped ∨
          name = modifiedName ∧ ∃ moment ∈ (new {} 0 (.new .standard)).stamps typingRequests,
            ∃ text, Timestamp.render? moment = some text ∧ p = .single (.date text) ∧
              ¬ Timestamp.HasPlainYear moment ∧
              Value.parse .date text = .error ⟨.date, text⟩ := by
  have hnew := Repository.isWellTyped_new .standard
  exact ⟨hnew, by decide +kernel, by decide +kernel, by decide +kernel,
    wellTyped_answers {} 0 (.new .standard) hnew typingRequests⟩

/-- **A file of the year 10000 is stored with a date that is not accepted as one.** -/
theorem illTyped_file :
    ¬ ∀ (options : ImportOptions) (clock : Int) (r : Repository) (requests : List Request),
      r.IsWellTyped → (requests.foldl answer (new options clock r)).repository.IsWellTyped := by
  intro h
  have hfile := h {} 0 (.new .standard)
    [.prepare "/" none, .action (.call (.openFile "f" (.ok []) none 253402300800000))]
    (Repository.isWellTyped_new .standard) "/f/jcr:content" modifiedName
    (.single (.date "+10000-01-01T00:00:00.000+00:00")) (by decide +kernel)
  have hrejected : Value.parse .date "+10000-01-01T00:00:00.000+00:00" ≠
      .ok (.date "+10000-01-01T00:00:00.000+00:00") := by decide +kernel
  exact hrejected hfile

end Import

end ContentImport
