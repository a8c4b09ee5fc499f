import Simula.Table

/-!
# The class hierarchy

Compiled classes are known by a package and a name. The hierarchy records the super-class of
each, with two roots of the runtime system above all classes and procedures, and remembers
which of them are interfaces.

Edges are listed in the order of their sub-classes, by package and then by name.
-/

namespace Simula

/-- The package-qualified name of a compiled class. -/
structure ClassIdentity where
  package : String
  name : String
  deriving DecidableEq, Repr, Inhabited

namespace ClassIdentity

instance : LT ClassIdentity :=
  ⟨fun a b => a.package < b.package ∨ a.package = b.package ∧ a.name < b.name⟩

instance : DecidableLT ClassIdentity := fun a b =>
  inferInstanceAs (Decidable (a.package < b.package ∨ a.package = b.package ∧ a.name < b.name))

instance : Trans (α := ClassIdentity) (· < ·) (· < ·) (· < ·) where
  trans := by
    intro a b c hab hbc
    rcases hab with hab | ⟨hab, hab'⟩ <;> rcases hbc with hbc | ⟨hbc, hbc'⟩
    · exact Or.inl (String.lt_trans hab hbc)
    · exact Or.inl (hbc ▸ hab)
    · exact Or.inl (hab ▸ hbc)
    · exact Or.inr ⟨hab.trans hbc, String.lt_trans hab' hbc'⟩

/-- The package of the runtime system. -/
def runtimePackage : String := "simula/runtime"

/-- The root of every compiled class. -/
def runtimeClass : ClassIdentity := ⟨runtimePackage, "RTS_CLASS"⟩

/-- The root of every compiled procedure. -/
def runtimeProcedure : ClassIdentity := ⟨runtimePackage, "RTS_PROCEDURE"⟩

/-- Whether an identity is one of the roots. -/
def isRuntimeRoot (c : ClassIdentity) : Bool := c == runtimeClass || c == runtimeProcedure

/-- The parts before and after the last slash of a text that has one. -/
def splitLastSlash : List Char → Option (List Char × List Char)
  | [] => none
  | c :: rest =>
    match splitLastSlash rest with
    | some (before, after) => some (c :: before, after)
    | none => if c = '/' then some ([], rest) else none

/-- The identity written as a package, a slash and a name; without a slash all is the name. -/
def parse (qualified : String) : ClassIdentity :=
  match splitLastSlash qualified.toList with
  | some (package, name) => ⟨String.ofList package, String.ofList name⟩
  | none => ⟨"", qualified⟩

/-- The identity as one text. -/
def qualifiedName (c : ClassIdentity) : String :=
  if c.package = "" then c.name else c.package ++ "/" ++ c.name

end ClassIdentity

/-- The super-classes and interfaces known to a session. -/
structure ClassHierarchy where
  /-- The super-class of each known class. -/
  supers : Table ClassIdentity ClassIdentity := .empty
  interfaces : List ClassIdentity := []
  deriving Inhabited

namespace ClassHierarchy

/-- A hierarchy without classes. -/
def empty : ClassHierarchy := {}

/-- Records the super-class of a class in place of any earlier one. -/
def registerEdge (h : ClassHierarchy) (sub sup : ClassIdentity) : ClassHierarchy :=
  { h with supers := h.supers.insert sub sup }

/-- Records an interface. -/
def registerInterface (h : ClassHierarchy) (c : ClassIdentity) : ClassHierarchy :=
  { h with interfaces := c :: h.interfaces }

/-- Whether an identity is a recorded interface. -/
def isInterface (h : ClassHierarchy) (c : ClassIdentity) : Bool := c ∈ h.interfaces

/-- The recorded super-class. -/
def super? (h : ClassHierarchy) (c : ClassIdentity) : Option ClassIdentity := h.supers.find? c

/-- The recorded super-class, unless it is a root. -/
def realSuper? (h : ClassHierarchy) (c : ClassIdentity) : Option ClassIdentity :=
  (h.super? c).filter fun sup => !sup.isRuntimeRoot

/-- Whether a class can be loaded: interfaces always, others after their real super-class. -/
def isReady (h : ClassHierarchy) (isLoaded : ClassIdentity → Bool) (c : ClassIdentity) : Bool :=
  h.isInterface c ||
    match h.realSuper? c with
    | none => true
    | some sup => isLoaded sup

/-- The pairs of sub-class and super-class, in ascending order of the sub-classes. -/
def edges (h : ClassHierarchy) : List (ClassIdentity × ClassIdentity) := h.supers.entries

/-- The number of recorded edges. -/
def size (h : ClassHierarchy) : Nat := h.supers.size

end ClassHierarchy

end Simula
