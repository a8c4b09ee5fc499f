import Simula.Ty

/-!
# Constants

The values that can be written down in a program. Real numbers are kept as the bits of
their interchange formats, so that no value is lost or identified with another.
-/

namespace Simula

/-- A literal value. -/
inductive Constant
  /-- The empty reference `none`. -/
  | null
  | boolean (value : Bool)
  | character (value : Char)
  | integer (value : Int)
  | real (bits : UInt32)
  | longReal (bits : UInt64)
  /-- A text; the absent one is `notext`. -/
  | text (value : Option String)
  deriving DecidableEq, Repr, Inhabited

/-- The type of a literal value. -/
def Constant.ty : Constant → Ty
  | null => .none
  | boolean _ => .boolean
  | character _ => .character
  | integer _ => .integer
  | real _ => .real
  | longReal _ => .longReal
  | text _ => .text

end Simula
