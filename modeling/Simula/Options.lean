import Simula.Identifier

/-!
# Session options

The settings that hold for one compilation session, with their defaults.
-/

namespace Simula

/-- The settings of one compilation session. -/
structure Options where
  /-- How identifiers compare. -/
  caseRule : CaseRule := .insensitive
  /-- The package of the classes compiled in this session. -/
  package : String := "simula/user"
  /-- The number of passes after which class loading gives up. -/
  maxLoadPasses : Nat := 500
  /-- The number of the first object in an attribute file. -/
  sequenceBase : Int := 8001
  deriving DecidableEq, Repr, Inhabited

end Simula
