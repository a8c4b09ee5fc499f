import Simula.Error
import Simula.Operator
import Simula.Ty

/-!
# Conversions between types

Numbers convert into each other, and a reference converts along the prefix chain: to a
prefix class freely, to a subclass with a check of the object. Questions about classes are
answered by a view of the classes visible from one scope.
-/

namespace Simula

/-- The classes visible from one scope. -/
structure ClassView where
  /-- The class that an identifier denotes. -/
  find : String → Option NodeId
  /-- Whether the first class is a strict subclass of the second. -/
  isSubclass : NodeId → NodeId → Bool

namespace Ty

/-- Whether every reference of the first type can be stored in a variable of the second,
the types being different: `none` goes anywhere, and an object goes to its prefix classes. -/
def isSubReference (classes : ClassView) : Ty → Ty → Bool
  | ref Option.none, ref _ => true
  | ref (some _), ref Option.none => false
  | ref (some sub), ref (some sup) =>
    match classes.find sub, classes.find sup with
    | some c, some d => classes.isSubclass c d
    | _, _ => false
  | _, _ => false

/-- How a value of the first type reaches a variable of the second. -/
def conversionTo (classes : ClassView) (source target : Ty) : ConversionKind :=
  if target.isUndefined || source.same target then .directAssignable
  else if source.isArithmetic && target.isArithmetic then .convertValue
  else if source.isSubReference classes target then .directAssignable
  else if target.isSubReference classes source then .convertRef
  else .illegal

/-- The type that two operands share: the dominant of two numbers, the more general of two
references. -/
def common (classes : ClassView) (a b : Ty) : Option Ty :=
  if a.same b then some a
  else
    match a.arithmeticRank, b.arithmeticRank with
    | some ra, some rb => some (if rb ≤ ra then a else b)
    | _, _ =>
      if a.isSubReference classes b then some b
      else if b.isSubReference classes a then some a
      else Option.none

end Ty

end Simula
