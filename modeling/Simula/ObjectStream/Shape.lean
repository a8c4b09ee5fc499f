import Simula.Node
import Simula.Stream.Decoder
import Simula.Stream.Encoder

/-!
# Field shapes

The record of a node in an object stream is a sequence of fields. A scalar field is stored in
place. A link is stored as an object, and so are the members of a list of children; the
members of a declaration list are objects too, named by their own identifiers.

A payload holds one value per shape, so the reader and the writer of a record follow the same
description and cannot disagree about the order of its fields.
-/

namespace Simula

/-- The fields that are stored in place. -/
inductive Scalar
  /-- An identifier or file name, which is never absent. -/
  | identifier
  /-- A name that may be absent. -/
  | name
  /-- A list of identifiers behind its length. -/
  | identifiers
  /-- The identifier of a separately compiled module and the kind of the module. -/
  | moduleName
  | byte
  | count
  | flag
  | type
  | constant
  | parameterMode
  | parameterKind
  | virtualKind
  | binaryOp
  | unaryOp
  | assignOp
  | relationOp
  | conversionKind
  deriving DecidableEq, Repr

namespace Scalar

/-- The values of a scalar field. -/
@[reducible] def Value : Scalar → Type
  | identifier => String
  | name => Option String
  | identifiers => List String
  | moduleName => String × Kind
  | byte => UInt8
  | count => Nat
  | flag => Bool
  | type => Ty
  | constant => Constant
  | parameterMode => ParameterMode
  | parameterKind => ParameterKind
  | virtualKind => VirtualKind
  | binaryOp => BinaryOp
  | unaryOp => UnaryOp
  | assignOp => AssignOp
  | relationOp => RelationOp
  | conversionKind => ConversionKind

/-- Appends a list of identifiers, one after the other. -/
def putIdentifiers : List String → Encoder Unit
  | [] => pure ()
  | s :: rest => do
    Encoder.string (some s)
    putIdentifiers rest

/-- Takes an identifier, which must not be absent. -/
def takeIdentifier : Decoder String := do
  match ← Decoder.string with
  | some s => return s
  | none => throw (.protocol (.missing "identifier"))

/-- Takes the given number of identifiers. -/
def takeIdentifiers : Nat → Decoder (List String)
  | 0 => return []
  | n + 1 => do
    let s ← takeIdentifier
    return s :: (← takeIdentifiers n)

/-- Takes the name of a module and its kind, which must be a class or a procedure. -/
def takeModuleName : Decoder (String × Kind) := do
  let identifier ← takeIdentifier
  let kind ← Decoder.kind
  if kind.isModule then return (identifier, kind)
  else throw (.protocol (.notAModule identifier kind))

/-- Appends a scalar field. -/
def put : (s : Scalar) → s.Value → Encoder Unit
  | identifier, s => Encoder.string (some s)
  | name, s => Encoder.string s
  | identifiers, ss => do
    Encoder.count ss.length
    putIdentifiers ss
  | moduleName, (s, k) => do
    Encoder.string (some s)
    Encoder.kind k
  | byte, b => Encoder.byte b
  | count, n => Encoder.count n
  | flag, b => Encoder.flag b
  | type, t => Encoder.type t
  | constant, c => Encoder.constant c
  | parameterMode, a => Encoder.coded a
  | parameterKind, a => Encoder.coded a
  | virtualKind, a => Encoder.coded a
  | binaryOp, a => Encoder.coded a
  | unaryOp, a => Encoder.coded a
  | assignOp, a => Encoder.coded a
  | relationOp, a => Encoder.coded a
  | conversionKind, a => Encoder.coded a

/-- Takes a scalar field. -/
def take : (s : Scalar) → Decoder s.Value
  | identifier => takeIdentifier
  | name => Decoder.string
  | identifiers => do
    let n ← Decoder.count
    takeIdentifiers n
  | moduleName => takeModuleName
  | byte => Decoder.byte
  | count => Decoder.count
  | flag => Decoder.flag
  | type => Decoder.type
  | constant => Decoder.constant
  | parameterMode => Decoder.coded ParameterMode "parameter mode"
  | parameterKind => Decoder.coded ParameterKind "parameter kind"
  | virtualKind => Decoder.coded VirtualKind "virtual kind"
  | binaryOp => Decoder.coded BinaryOp "binary operator"
  | unaryOp => Decoder.coded UnaryOp "unary operator"
  | assignOp => Decoder.coded AssignOp "assignment operator"
  | relationOp => Decoder.coded RelationOp "object relation"
  | conversionKind => Decoder.coded ConversionKind "conversion kind"

end Scalar

/-- What a field of a record is. -/
inductive Shape
  | scalar (s : Scalar)
  /-- An object that may be absent. -/
  | link
  /-- An object that must be there; the role names it in messages. -/
  | child (role : String)
  /-- A list of objects that must be there. -/
  | children (role : String)
  /-- The declarations of a scope. -/
  | declarations
  deriving DecidableEq, Repr

/-- The values of a field. -/
@[reducible] def Shape.Value : Shape → Type
  | scalar s => s.Value
  | link => Option NodeId
  | child _ => NodeId
  | children _ => List NodeId
  | declarations => DeclarationList

/-- One value for each shape of a record. -/
@[reducible] def Payload : List Shape → Type
  | [] => Unit
  | s :: rest => s.Value × Payload rest

end Simula
