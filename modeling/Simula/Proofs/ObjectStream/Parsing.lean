import Simula.Proofs.ObjectStream.Transcript
import Simula.Proofs.Stream.Parsing

/-!
# Object streams are parsed

The reader of an object stream keeps a table of what it has read and a tree that grows, but it never
looks at bytes that it does not take. So an object is told from its own bytes and the objects before
it, and a stream that is cut short ends too early and in no other way.
-/

namespace Simula

open HasInput

instance : HasInput ReaderState where
  input s := s.input
  setInput bytes s := { s with input := bytes }
  input_setInput _ _ := rfl
  setInput_input _ := rfl

namespace Reader

variable {α : Type}

/-- A value is parsed if its decoder parses. -/
theorem take_parses {d : Decoder α} (h : Parses FileFault d) : Parses FileFault (take d) :=
  h.lift ReaderState.input (fun bytes s => { s with input := bytes })
    take_of_ok take_of_error (fun _ => rfl) (fun _ _ => rfl) (fun _ _ => rfl) fun _ _ _ _ => rfl

/-- A node is registered whatever the input. -/
theorem register_parses (sequence : Int) (line : Nat) :
    Parses FileFault (register sequence line) := by
  refine .of_blind (fun bytes s => ?_) fun {s e s'} h => ?_
  · cases hlookup : s.objects.lookup sequence with
    | none =>
      have hfree : (setInput bytes s).objects.lookup sequence = none := hlookup
      rw [register_of_fresh line hlookup, register_of_fresh line hfree]
      rfl
    | some id =>
      have hknown : (setInput bytes s).objects.lookup sequence = some id := hlookup
      rw [register_of_known line hlookup, register_of_known line hknown]
      rfl
  · cases hlookup : s.objects.lookup sequence with
    | none =>
      rw [register_of_fresh line hlookup] at h
      cases h
    | some id =>
      rw [register_of_known line hlookup] at h
      cases h
      rfl

/-- Declarations that cannot be listed are faults of the file. -/
theorem faults_declarationList {t : Tree} {list : DeclarationList} {ids : List NodeId} {e : Error}
    (h : declarationList t list ids = .error e) : FileFault e := by
  induction ids generalizing list with
  | nil => cases h
  | cons id ids ih =>
    rw [declarationList] at h
    split at h
    · cases h
      rfl
    · split at h
      · cases h
        rfl
      · exact ih h

/-- A node is completed whatever the input. -/
theorem complete_parses (id : NodeId) (d : NodeData) : Parses FileFault (complete id d) :=
  .of_blind (fun _ _ => rfl) nofun

/-- Every step of reading an object parses. -/
theorem parses_frame : ObjectFrame fun _ x _ => Parses FileFault x where
  toFieldFrame := .of_bind .pure .bind take_parses (fun _ => .throw rfl) fun ids =>
    .of_get (fun _ _ => rfl) fun s => by
      cases hlist : declarationList s.tree {} ids with
      | ok list => exact .pure list
      | error e => exact .throw (faults_declarationList hlist)
  ended := .throw rfl
  known sequence := .of_get (fun _ _ => rfl) fun s => by
    cases s.objects.lookup sequence with
    | none => exact .throw rfl
    | some id => exact .pure _
  record _ hfields sequence line := (register_parses sequence line).bind fun id =>
    hfields.bind fun p => (complete_parses id _).map _

/-- An object is parsed, however many records may be open at a time. -/
theorem objectWithin_parses (depth : Nat) : Parses FileFault (objectWithin depth) :=
  parses_frame.objectWithin depth

end Reader

end Simula
