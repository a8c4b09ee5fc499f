import Simula.Stream.Decoder
import Simula.Stream.Encoder

/-!
# Primitive items

A primitive stream is a sequence of items of known sorts. An item carries its value, and
its sort says how to read it back.
-/

namespace Simula

/-- The sorts of primitive values. -/
inductive ItemSort
  | byte
  | short
  | count
  | flag
  | string
  | kind
  | type
  | constant
  deriving DecidableEq, Repr

/-- A primitive value together with its sort. -/
inductive Item
  | byte (value : UInt8)
  | short (value : Int)
  | count (value : Nat)
  | flag (value : Bool)
  | string (value : Option String)
  | kind (value : Kind)
  | type (value : Ty)
  | constant (value : Constant)
  deriving DecidableEq, Repr

namespace Item

/-- The sort of an item. -/
def sort : Item → ItemSort
  | byte _ => .byte
  | short _ => .short
  | count _ => .count
  | flag _ => .flag
  | string _ => .string
  | kind _ => .kind
  | type _ => .type
  | constant _ => .constant

/-- Appends an item. -/
def put : Item → Encoder Unit
  | byte b => Encoder.byte b
  | short n => Encoder.short n
  | count n => Encoder.count n
  | flag b => Encoder.flag b
  | string s => Encoder.string s
  | kind k => Encoder.kind k
  | type t => Encoder.type t
  | constant c => Encoder.constant c

/-- Takes an item of the given sort. -/
def take : ItemSort → Decoder Item
  | .byte => return byte (← Decoder.byte)
  | .short => return short (← Decoder.short)
  | .count => return count (← Decoder.count)
  | .flag => return flag (← Decoder.flag)
  | .string => return string (← Decoder.string)
  | .kind => return kind (← Decoder.kind)
  | .type => return type (← Decoder.type)
  | .constant => return constant (← Decoder.constant)

end Item

end Simula
