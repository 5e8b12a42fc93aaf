import ContentImport.Access.Grant
import ContentImport.Import.Error

/-!
# Calls of an import

A reader turns a document into calls, and an importer carries them out in order.

* `Call` is one step of an import.
* `Script` is what a reader makes of a document: the calls up to the end or to the first error of
  the document, and what came of it. Scripts are put together like the documents they come from;
  what follows an error is dropped (`Script.bind_calls`).
-/

namespace ContentImport

/-- One step of an import. All but the principals concern the node that is open. -/
inductive Call
  /-- Opens a child, or the top node of the document if there is no name. -/
  | openNode (name : Option String) (type : Option String) (mixins : List String)
  /-- Closes the open node. -/
  | closeNode
  | setProperty (name : String) (type : ValueType) (text : String)
  | setProperties (name : String) (type : ValueType) (texts : List String)
  /-- Opens a file node and its content. The data may turn out to be unreadable. -/
  | openFile (name : String) (data : Except FileError Bytes) (mediaType : Option String)
      (modified : Int)
  /-- Opens the node at a path below the open one; missing nodes get the type. -/
  | openPath (path : String) (type : Option String)
  | createUser (name : String) (password : Option String) (extra : Table Value)
  | createGroup (name : String) (members : List String) (extra : Table Value)
  /-- Replaces the entries of a principal. -/
  | setEntries (principal : String) (grants : List Grant) (order : Option String)

/-- Calls and the result of reading. -/
structure Script (α : Type) where
  calls : List Call
  result : Except ImportError α

namespace Script

/-- No calls and a value. -/
def done {α : Type} (a : α) : Script α := ⟨[], .ok a⟩

/-- One call. -/
def call (c : Call) : Script Unit := ⟨[c], .ok ()⟩

/-- An error before any call. -/
def fail {α : Type} (e : ImportError) : Script α := ⟨[], .error e⟩

/-- A result without calls. -/
def ofResult {α : Type} (r : Except ImportError α) : Script α := ⟨[], r⟩

/-- A script continued by a script that depends on its value. -/
def bind {α β : Type} (s : Script α) (f : α → Script β) : Script β :=
  match s.result with
  | .ok a => ⟨s.calls ++ (f a).calls, (f a).result⟩
  | .error e => ⟨s.calls, .error e⟩

instance : Monad Script where
  pure := done
  bind := bind

theorem bind_calls {α β : Type} (s : Script α) (f : α → Script β) :
    (s.bind f).calls = s.calls ++ (match s.result with
      | .ok a => (f a).calls
      | .error _ => []) := by
  unfold bind
  split <;> simp

/-- What holds of the calls of two scripts, holds of those of one followed by the other. -/
theorem forall_mem_calls_bind {α β : Type} {P : Call → Prop} {s : Script α} {f : α → Script β}
    (hs : ∀ c ∈ s.calls, P c) (hf : ∀ a, s.result = .ok a → ∀ c ∈ (f a).calls, P c) :
    ∀ c ∈ (s.bind f).calls, P c := by
  intro c hc
  rw [bind_calls] at hc
  rcases List.mem_append.1 hc with hc | hc
  · exact hs c hc
  · split at hc
    · next a ha => exact hf a ha c hc
    · cases hc

/-- The scripts of the elements of a list one after the other. -/
def each {α : Type} (f : α → Script Unit) : List α → Script Unit
  | [] => done ()
  | a :: r => (f a).bind fun _ => each f r

end Script

end ContentImport
