import Simula.Coded
import Simula.Identifier

/-!
# Types

The value types, the reference types and the marker for an expression whose type is not
known. A reference type is qualified by a class identifier; the reference type without one
is the type of `none`.

Class identifiers inside types are spelled as written, and two types are the same when
they agree up to the case of those identifiers, whatever the case rule of the session.
-/

namespace Simula

/-- The type of an expression or a declared quantity. -/
inductive Ty
  | undefined
  | boolean
  | character
  | integer
  | real
  | longReal
  | text
  | ref (className : Option String)
  | procedure
  | label
  deriving DecidableEq, Repr, Inhabited

/-- The shape of a type without its class qualification. -/
inductive TypeTag
  | undefined
  | boolean
  | character
  | integer
  | real
  | longReal
  | text
  | ref
  | procedure
  | label
  deriving DecidableEq, Repr

instance : Coded TypeTag where
  all := [.undefined, .boolean, .character, .integer, .real, .longReal, .text, .ref,
    .procedure, .label]
  name
    | .undefined => "Undefined"
    | .boolean => "Boolean"
    | .character => "Character"
    | .integer => "Integer"
    | .real => "Real"
    | .longReal => "LongReal"
    | .text => "Text"
    | .ref => "Ref"
    | .procedure => "Procedure"
    | .label => "Label"
  mem_all := by intro t; cases t <;> decide
  nodup_all := by decide
  length_all := by decide

namespace Ty

/-- The type of `none`. -/
def none : Ty := ref Option.none

/-- The reference type qualified by a class. -/
def reference (className : String) : Ty := ref (some className)

/-- The shape of a type. -/
def tag : Ty → TypeTag
  | undefined => .undefined
  | boolean => .boolean
  | character => .character
  | integer => .integer
  | real => .real
  | longReal => .longReal
  | text => .text
  | ref _ => .ref
  | procedure => .procedure
  | label => .label

/-- How a type is written in messages. -/
def display : Ty → String
  | undefined => "notype"
  | boolean => "boolean"
  | character => "character"
  | integer => "integer"
  | real => "real"
  | longReal => "long real"
  | text => "text"
  | ref (some c) => "ref(" ++ c ++ ")"
  | ref Option.none => "ref(NONE)"
  | procedure => "procedure"
  | label => "label"

instance : ToString Ty := ⟨display⟩

/-- The position of an arithmetic type in integer, real, long real. -/
def arithmeticRank : Ty → Option Nat
  | integer => some 0
  | real => some 1
  | longReal => some 2
  | _ => Option.none

/-- Whether values of the type are numbers. -/
def isArithmetic (t : Ty) : Bool := t.arithmeticRank.isSome

/-- Whether values of the type are object references. -/
def isReference : Ty → Bool
  | ref _ => true
  | _ => false

/-- Whether the type is not known. -/
def isUndefined : Ty → Bool
  | undefined => true
  | _ => false

/-- Only the undefined type is undefined. -/
theorem isUndefined_iff {ty : Ty} : ty.isUndefined = true ↔ ty = undefined := by
  cases ty <;> simp [isUndefined]

/-- The class identifier that qualifies a reference type. -/
def className? : Ty → Option String
  | ref c => c
  | _ => Option.none

/-- The type with its class identifier in upper case. -/
def folded : Ty → Ty
  | ref c => ref (c.map upperCase)
  | t => t

/-- Whether two types agree up to the case of class identifiers. -/
def same (a b : Ty) : Bool := a.folded == b.folded

/-- Sameness of types is equality after folding. -/
theorem same_iff (a b : Ty) : a.same b = true ↔ a.folded = b.folded := by
  simp [same]

/-- Every type is the same as itself. -/
@[simp] theorem same_self (a : Ty) : a.same a = true := by simp [same]

end Ty

end Simula
