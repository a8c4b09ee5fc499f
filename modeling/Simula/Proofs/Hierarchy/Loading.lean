import Simula.Proofs.AttributeFile.Growth
import Simula.Proofs.Hierarchy.Edges

/-!
# What loading does to the hierarchy

Only the header of a file says something about the hierarchy, and it only adds to it: a class whose
super-class is known stays known while a file is read, with the files that it names, whether they
can be read or not.
-/

namespace Simula

/-- Every class whose super-class was known has a known one still. -/
def ClassHierarchy.KnowsMore (h h' : ClassHierarchy) : Prop :=
  ∀ c, (h.super? c).isSome = true → (h'.super? c).isSome = true

namespace ClassHierarchy.KnowsMore

/-- A hierarchy knows what it knows. -/
theorem refl (h : ClassHierarchy) : h.KnowsMore h := fun _ hc => hc

/-- What is known stays known over two steps. -/
theorem trans {h h' h'' : ClassHierarchy} (hh : h.KnowsMore h') (hh' : h'.KnowsMore h'') :
    h.KnowsMore h'' := fun c hc => hh' c (hh c hc)

/-- Recording an edge makes no class unknown. -/
theorem registerEdge (h : ClassHierarchy) (sub sup : ClassIdentity) :
    h.KnowsMore (h.registerEdge sub sup) := by
  intro c hc
  rw [super?_registerEdge]
  split
  · rfl
  · exact hc

/-- Nor does recording several. -/
theorem registerEdges (h : ClassHierarchy) (edges : List (ClassIdentity × ClassIdentity)) :
    h.KnowsMore (h.registerEdges edges) := by
  induction edges generalizing h with
  | nil => exact refl h
  | cons e edges ih => exact (registerEdge h e.1 e.2).trans (ih _)

end ClassHierarchy.KnowsMore

/-- Loading has not made a known class unknown. -/
def LoadState.KnowsMore (s s' : LoadState) : Prop := s.hierarchy.KnowsMore s'.hierarchy

instance : Std.Refl LoadState.KnowsMore := ⟨fun s => .refl s.hierarchy⟩

instance : Trans LoadState.KnowsMore LoadState.KnowsMore LoadState.KnowsMore :=
  ⟨ClassHierarchy.KnowsMore.trans⟩

namespace AttributeFile

/-- Reading on has left the hierarchy. -/
def FileState.SameHierarchy (s s' : FileState) : Prop := s'.loading.hierarchy = s.loading.hierarchy

instance : Std.Refl FileState.SameHierarchy := ⟨fun _ => rfl⟩

instance : Trans FileState.SameHierarchy FileState.SameHierarchy FileState.SameHierarchy :=
  ⟨fun h h' => Eq.trans h' h⟩

/-- Reading on has not made a known class unknown. -/
def FileState.KnowsMore (s s' : FileState) : Prop := s.loading.KnowsMore s'.loading

instance : Std.Refl FileState.KnowsMore := ⟨fun s => .refl s.loading.hierarchy⟩

instance : Trans FileState.KnowsMore FileState.KnowsMore FileState.KnowsMore :=
  ⟨ClassHierarchy.KnowsMore.trans⟩

/-- A hierarchy that is left alone knows no less. -/
theorem FileState.SameHierarchy.knowsMore {s s' : FileState} (h : s.SameHierarchy s') :
    s.KnowsMore s' := by
  unfold FileState.KnowsMore LoadState.KnowsMore
  rw [h]
  exact .refl _

section

variable {α : Type}

/-- The object stream of a file says nothing on the hierarchy. -/
theorem stream_sameHierarchy (m : Reader α) : Follows FileState.SameHierarchy (stream m) := by
  rintro ⟨input, objects, tree, hierarchy, loaded⟩
  rw [leaves, stream]
  cases m ⟨input, tree, objects⟩ <;> rfl

/-- Reading objects makes no class unknown. -/
theorem stream_knowsMore (m : Reader α) : Follows FileState.KnowsMore (stream m) :=
  (stream_sameHierarchy m).mono FileState.SameHierarchy.knowsMore

/-- Nor does reading the header. -/
theorem headerFrame_knowsMore : HeaderFrame FileState.KnowsMore where
  take d := stream_knowsMore (Reader.take d)
  edge sub sup := .of_modify fun s => .registerEdge s.loading.hierarchy sub sup

/-- What else is loaded keeps the known classes of the file if it keeps them otherwise. -/
theorem meanwhile_knowsMore {l : Loading α} (h : Follows LoadState.KnowsMore l) :
    Follows FileState.KnowsMore (meanwhile l) := by
  intro s
  cases hl : l s.loading with
  | ok a loading =>
    rw [leaves_of_ok (meanwhile_of_ok hl)]
    exact h.of_ok hl
  | error e loading =>
    rw [leaves_of_error (meanwhile_of_error hl)]
    exact h.of_error hl

end

section

variable {loadExternal : NodeId → Loading NodeId}
variable (hload : ∀ id, Follows LoadState.KnowsMore (loadExternal id))
include hload

/-- Nor does reading external declarations, if loading does not. -/
theorem readExternals_knowsMore (n : Nat) :
    Follows FileState.KnowsMore (readExternals loadExternal n) := by
  induction n with
  | zero => exact .throw _
  | succ n ih =>
    apply (stream_knowsMore _).bind
    intro kind
    split
    · exact .pure _
    · apply (stream_knowsMore _).bind
      intro external
      cases external with
      | none => exact .throw _
      | some external =>
        apply (meanwhile_knowsMore (hload external)).bind
        intro module
        have hlink : Follows FileState.KnowsMore (linkExternal external module) :=
          .of_modify fun s => .refl s.loading.hierarchy
        exact hlink.bind fun _ => ih.bind fun _ => .pure _

/-- Nor does reading a whole file. -/
theorem readAll_knowsMore : Follows FileState.KnowsMore (readAll loadExternal) :=
  headerFrame_knowsMore.readAll (readExternals_knowsMore hload) fun kind =>
    stream_knowsMore (Reader.tagged kind)

/-- Reading a file keeps the known classes if loading what it names does. -/
theorem read_knowsMore (bytes : Bytes) : Follows LoadState.KnowsMore (read loadExternal bytes) :=
  read_follows_of (readAll_knowsMore hload) bytes

end

end AttributeFile

namespace Session

/-- Nor does loading. -/
theorem loadFrame_knowsMore : LoadFrame LoadState.KnowsMore where
  enter s _ _ := .refl s.hierarchy
  read := AttributeFile.read_knowsMore

/-- Loading an entry of a library keeps the known classes. -/
theorem loadWithin_knowsMore (library : AttributeLibrary) (depth : Nat) (inProgress : List String)
    (entry : String) : Follows LoadState.KnowsMore (loadWithin library depth inProgress entry) :=
  loadFrame_knowsMore.loadWithin library depth inProgress entry

end Session

end Simula
