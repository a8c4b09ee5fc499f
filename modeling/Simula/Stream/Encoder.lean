import Simula.Constant
import Simula.Error
import Simula.Stream.Bytes
import Simula.Text.Units

/-!
# Writing primitive values

An encoder appends the bytes of one value to those written before it. When a value has no
place in the format the encoder fails, and what was written up to that point stays. The bytes
are counted as they are written.

Numbers and counts take two bytes, text takes a length followed by sixteen-bit units, and
types and constants start with a tag byte. The length of a text is stored plus one, so
that zero can stand for an absent text.
-/

namespace Simula

/-- An output: the bytes written so far, and their count. -/
structure Output where
  sink : Array UInt8 := #[]
  written : Nat := 0
  deriving DecidableEq, Repr

namespace Output

/-- How many bytes have been written. -/
def position (out : Output) : Nat := out.written

/-- Writes bytes behind those that are there, and counts them. -/
def put (out : Output) (bs : Bytes) : Output := ⟨out.sink ++ bs, out.written + bs.length⟩

instance : HAppend Output Bytes Output := ⟨put⟩

/-- The bytes of an output. -/
def toList (out : Output) : Bytes := out.sink.toList

end Output

/-- An action that appends to an output, and keeps what has been written when it fails. -/
abbrev Encoder := EStateM Error Output

/-- The largest number that fits in a signed two-byte field. -/
def maxShort : Nat := 32767

/-- Whether a number fits in a signed two-byte field. -/
def fitsShort (n : Int) : Bool := -(maxShort : Int) - 1 ≤ n && n ≤ maxShort

namespace Encoder

/-- Appends a byte string. -/
def bytes (bs : Bytes) : Encoder Unit := fun out => .ok () (out ++ bs)

/-- Appends one byte. -/
def byte (b : UInt8) : Encoder Unit := bytes [b]

/-- Appends a signed two-byte number. -/
def short (n : Int) : Encoder Unit :=
  if fitsShort n then bytes (Bytes.ofNat 2 (n % 65536).toNat) else throw (.range n)

/-- Appends a count or line number; one too large is reported as a signed eight-byte number. -/
def count (n : Nat) : Encoder Unit :=
  if n ≤ maxShort then short n else throw (.range (Int.bmod n 0x10000000000000000))

/-- Appends a truth value. -/
def flag (b : Bool) : Encoder Unit := byte (if b then 1 else 0)

/-- The bytes of sixteen-bit units. -/
def unitBytes (units : List UInt16) : Bytes := units.flatMap fun u => Bytes.ofNat 2 u.toNat

/-- Appends a text or the mark of an absent one. -/
def string : Option String → Encoder Unit
  | none => short 0
  | some s => do
    let units := Text.toUnits s.toList
    short (units.length + 1)
    bytes (unitBytes units)

/-- Appends a kind tag given as a number. -/
def kindTag (tag : Int) : Encoder Unit :=
  if 0 ≤ tag && tag ≤ Kind.maxTag then byte (UInt8.ofNat tag.toNat)
  else throw (.protocol (.kindTag tag))

/-- Appends the tag of a kind. -/
def kind (k : Kind) : Encoder Unit := kindTag k.tag

/-- Appends the code of a value of a closed set. -/
def coded {α : Type} [DecidableEq α] [Coded α] (a : α) : Encoder Unit :=
  byte (UInt8.ofNat (Coded.code a))

/-- Appends a type: its tag, and the class identifier of a reference type. -/
def type (t : Ty) : Encoder Unit := do
  coded t.tag
  match t with
  | .ref className => string className
  | _ => pure ()

/-- Appends a constant: the tag of its type and its value. An integer keeps its lowest
sixteen bits, and a character must fit in one unit. -/
def constant : Constant → Encoder Unit
  | .null => coded TypeTag.undefined
  | .boolean b => do
    coded TypeTag.boolean
    flag b
  | .character c =>
    if c.toNat < 65536 then do
      coded TypeTag.character
      bytes (Bytes.ofNat 2 c.toNat)
    else throw (.unsupportedConstant (.wideCharacter c))
  | .integer n => do
    coded TypeTag.integer
    bytes (Bytes.ofNat 2 (n % 65536).toNat)
  | .real bits => do
    coded TypeTag.real
    bytes (Bytes.ofNat 4 bits.toNat)
  | .longReal bits => do
    coded TypeTag.longReal
    bytes (Bytes.ofNat 8 bits.toNat)
  | .text s => do
    coded TypeTag.text
    string s

end Encoder

end Simula
