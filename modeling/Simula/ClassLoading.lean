import Simula.Error
import Simula.Hierarchy
import Simula.Stream.Bytes

/-!
# Loading compiled classes

A class must reach the class loader after its super-class. The queue is scanned in passes: in
each pass every class that is ready is offered to the loader, and a class that is not ready or
still lacks another class stays in the queue, in its place, for the next pass.

Loading gives up after a fixed number of passes. The loader is any machine that answers
whether a class is loaded and accepts requests to load one.
-/

namespace Simula

/-- The answer to a request to load a class. -/
inductive LoadAnswer
  | loaded
  /-- A class that this one refers to is not loaded yet. -/
  | dependencyMissing
  | rejected (message : String)
  deriving DecidableEq, Repr

/-- A class-loading service with states `σ`. -/
structure ClassLoader (σ : Type) where
  isLoaded : σ → ClassIdentity → Bool
  load : σ → String → Bytes → LoadAnswer × σ

/-- A compiled class that waits to be loaded. -/
structure PendingClass where
  identity : ClassIdentity
  bytes : Bytes
  isInterface : Bool := false
  deriving DecidableEq, Repr

namespace ClassLoader

variable {σ : Type}

/-- An action that may drive a loader from state to state. -/
abbrev Run (σ : Type) := EStateM Error σ

/-- Asks the loader to load a class. -/
def request (loader : ClassLoader σ) (p : PendingClass) : Run σ LoadAnswer := fun s =>
  let (answer, s) := loader.load s p.identity.qualifiedName p.bytes
  .ok answer s

/-- Scans the queue once; gives the classes loaded, in order, and the queue that remains. -/
def pass (loader : ClassLoader σ) (h : ClassHierarchy) :
    List PendingClass → Run σ (List ClassIdentity × List PendingClass)
  | [] => return ([], [])
  | p :: rest => do
    if h.isReady (loader.isLoaded (← get)) p.identity then
      match ← loader.request p with
      | .loaded =>
        let (order, left) ← loader.pass h rest
        return (p.identity :: order, left)
      | .dependencyMissing =>
        let (order, left) ← loader.pass h rest
        return (order, p :: left)
      | .rejected message => throw (.classLoad p.identity.qualifiedName message)
    else
      let (order, left) ← loader.pass h rest
      return (order, p :: left)

/-- Scans the queue until it is empty, at most `passes` times out of `limit`. -/
def passes (loader : ClassLoader σ) (h : ClassHierarchy) (limit : Nat) :
    Nat → List PendingClass → Run σ (List ClassIdentity)
  | _, [] => return []
  | 0, queue =>
    throw (.internal (.gaveUp limit (queue.map fun p => p.identity.qualifiedName)))
  | n + 1, queue => do
    let (order, left) ← loader.pass h queue
    return order ++ (← loader.passes h limit n left)

/-- Loads all classes of a queue; gives their identities in the order of loading. -/
def loadAll (loader : ClassLoader σ) (h : ClassHierarchy) (limit : Nat)
    (queue : List PendingClass) : Run σ (List ClassIdentity) :=
  loader.passes h limit limit queue

end ClassLoader

/-- A rehearsal of class loading: only names are tracked, some classes are rejected, and some
need one other class. -/
structure Rehearsal where
  /-- The messages for the classes that are rejected. -/
  reject : List (String × String) := []
  /-- The one class that a class needs. -/
  needs : List (String × String) := []

/-- What has been loaded in a rehearsal, and every request so far. -/
structure RehearsalState where
  loaded : List ClassIdentity := []
  calls : Array (String × Bytes) := #[]

/-- The loader that plays a rehearsal. -/
def Rehearsal.loader (r : Rehearsal) : ClassLoader RehearsalState where
  isLoaded s c := c ∈ s.loaded
  load s name bytes :=
    let s := { s with calls := s.calls.push (name, bytes) }
    match r.reject.lookup name with
    | some message => (.rejected message, s)
    | none =>
      match r.needs.lookup name with
      | some needed =>
        if ClassIdentity.parse needed ∈ s.loaded then
          (.loaded, { s with loaded := ClassIdentity.parse name :: s.loaded })
        else (.dependencyMissing, s)
      | none => (.loaded, { s with loaded := ClassIdentity.parse name :: s.loaded })

end Simula
