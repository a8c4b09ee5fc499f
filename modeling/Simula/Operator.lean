import Simula.Coded

/-!
# Operators and modes

The closed sets that qualify expressions and declarations: operators, the ways a value
can reach a variable of another type, parameter modes and kinds, and virtual kinds.

Each is a coded set, so its values are written to attribute files as one byte.
-/

namespace Simula

/-- Operators with two operands. -/
inductive BinaryOp
  | add
  | sub
  | mul
  | div
  | intDiv
  | exp
  | lt
  | le
  | eq
  | ne
  | gt
  | ge
  | refEq
  | refNe
  | and
  | or
  | imp
  | eqv
  | concat
  deriving DecidableEq, Repr, Inhabited

instance : Coded BinaryOp where
  all := [.add, .sub, .mul, .div, .intDiv, .exp, .lt, .le, .eq, .ne, .gt, .ge, .refEq, .refNe,
    .and, .or, .imp, .eqv, .concat]
  name
    | .add => "Add"
    | .sub => "Sub"
    | .mul => "Mul"
    | .div => "Div"
    | .intDiv => "IntDiv"
    | .exp => "Exp"
    | .lt => "Lt"
    | .le => "Le"
    | .eq => "Eq"
    | .ne => "Ne"
    | .gt => "Gt"
    | .ge => "Ge"
    | .refEq => "RefEq"
    | .refNe => "RefNe"
    | .and => "And"
    | .or => "Or"
    | .imp => "Imp"
    | .eqv => "Eqv"
    | .concat => "Concat"
  mem_all := by intro t; cases t <;> decide
  nodup_all := by decide
  length_all := by decide

namespace BinaryOp

/-- The operators that compute a number. -/
def isArithmetic : BinaryOp → Bool
  | add | sub | mul | div | intDiv | exp => true
  | _ => false

/-- The operators that compare values. -/
def isRelational : BinaryOp → Bool
  | lt | le | eq | ne | gt | ge => true
  | _ => false

/-- The operators that combine truth values. -/
def isLogical : BinaryOp → Bool
  | and | or | imp | eqv => true
  | _ => false

/-- The operator as it is written in a program. -/
def symbol : BinaryOp → String
  | add => "+"
  | sub => "-"
  | mul => "*"
  | div => "/"
  | intDiv => "//"
  | exp => "**"
  | lt => "<"
  | le => "<="
  | eq => "="
  | ne => "<>"
  | gt => ">"
  | ge => ">="
  | refEq => "=="
  | refNe => "=/="
  | and => "and"
  | or => "or"
  | imp => "imp"
  | eqv => "eqv"
  | concat => "&"

end BinaryOp

/-- Operators with one operand. -/
inductive UnaryOp
  | plus
  | minus
  | not
  deriving DecidableEq, Repr, Inhabited

instance : Coded UnaryOp where
  all := [.plus, .minus, .not]
  name
    | .plus => "Plus"
    | .minus => "Minus"
    | .not => "Not"
  mem_all := by intro t; cases t <;> decide
  nodup_all := by decide
  length_all := by decide

/-- Assignment of a value or of a reference. -/
inductive AssignOp
  | value
  | reference
  deriving DecidableEq, Repr, Inhabited

instance : Coded AssignOp where
  all := [.value, .reference]
  name
    | .value => "Value"
    | .reference => "Reference"
  mem_all := by intro t; cases t <;> decide
  nodup_all := by decide
  length_all := by decide

/-- Tests of the class of an object: exactly that class, or that class or a subclass. -/
inductive RelationOp
  | is
  | within
  deriving DecidableEq, Repr, Inhabited

instance : Coded RelationOp where
  all := [.is, .within]
  name
    | .is => "Is"
    | .within => "In"
  mem_all := by intro t; cases t <;> decide
  nodup_all := by decide
  length_all := by decide

/-- How a value of one type reaches a variable of another. -/
inductive ConversionKind
  /-- The value can be stored as it is. -/
  | directAssignable
  /-- A number changes its representation. -/
  | convertValue
  /-- A reference needs a check of the object's class. -/
  | convertRef
  /-- No value of the one type reaches a variable of the other. -/
  | illegal
  deriving DecidableEq, Repr, Inhabited

instance : Coded ConversionKind where
  all := [.directAssignable, .convertValue, .convertRef, .illegal]
  name
    | .directAssignable => "DirectAssignable"
    | .convertValue => "ConvertValue"
    | .convertRef => "ConvertRef"
    | .illegal => "Illegal"
  mem_all := by intro t; cases t <;> decide
  nodup_all := by decide
  length_all := by decide

/-- How an actual parameter is transmitted. -/
inductive ParameterMode
  | default
  | value
  | name
  deriving DecidableEq, Repr, Inhabited

instance : Coded ParameterMode where
  all := [.default, .value, .name]
  name
    | .default => "Default"
    | .value => "Value"
    | .name => "Name"
  mem_all := by intro t; cases t <;> decide
  nodup_all := by decide
  length_all := by decide

/-- What a formal parameter stands for. -/
inductive ParameterKind
  | simple
  | array
  | procedure
  | label
  deriving DecidableEq, Repr, Inhabited

instance : Coded ParameterKind where
  all := [.simple, .array, .procedure, .label]
  name
    | .simple => "Simple"
    | .array => "Array"
    | .procedure => "Procedure"
    | .label => "Label"
  mem_all := by intro t; cases t <;> decide
  nodup_all := by decide
  length_all := by decide

/-- What a virtual specification announces. -/
inductive VirtualKind
  | procedure
  | label
  | switch
  deriving DecidableEq, Repr, Inhabited

instance : Coded VirtualKind where
  all := [.procedure, .label, .switch]
  name
    | .procedure => "Procedure"
    | .label => "Label"
    | .switch => "Switch"
  mem_all := by intro t; cases t <;> decide
  nodup_all := by decide
  length_all := by decide

end Simula
