import Simula.Constant
import Simula.Error
import Simula.Stream.Bytes
import Simula.Text.Units

/-!
# Reading primitive values

A decoder takes one value off the front of the remaining bytes. It fails when the bytes end
too early or break a rule of the format; the bytes it looked at count as read.

Each primitive value accepts exactly the bytes that its encoder produces.
-/

namespace Simula

/-- An action that consumes bytes from the front of the input. -/
abbrev Decoder := EStateM Error Bytes

namespace Decoder

/-- Takes the next `n` bytes. -/
def take (n : Nat) : Decoder Bytes := fun input =>
  let taken := input.take n
  if taken.length = n then .ok taken (input.drop n)
  else .error (.format .endOfInput) (input.drop n)

/-- Takes one byte. -/
def byte : Decoder UInt8
  | [] => .error (.format .endOfInput) []
  | b :: rest => .ok b rest

/-- Takes a natural number of the given width. -/
def nat (width : Nat) : Decoder Nat := return Bytes.toNat (← take width)

/-- Takes a signed two-byte number. -/
def short : Decoder Int := return Int.bmod (← nat 2) 65536

/-- Takes a count or line number. -/
def count : Decoder Nat := do
  let n ← short
  if 0 ≤ n then return n.toNat else throw (.protocol (.negativeCount n))

/-- Takes a truth value. -/
def flag : Decoder Bool := do
  let b ← byte
  if b = 0 then return false
  else if b = 1 then return true
  else throw (.protocol (.booleanByte b))

/-- The sixteen-bit units of a byte string of even length. -/
def units : Bytes → List UInt16
  | a :: b :: rest => UInt16.ofNat (a.toNat * 256 + b.toNat) :: units rest
  | _ => []

/-- Takes a text or the mark of an absent one. -/
def string : Decoder (Option String) := do
  let n ← short
  if n = 0 then return none
  if n < 0 then throw (.protocol (.lengthPrefix n))
  let bytes ← take (2 * (n.toNat - 1))
  match Text.ofUnits? (units bytes) with
  | some s => return some (String.ofList s)
  | none => throw (.protocol .brokenText)

/-- Takes a kind tag. -/
def kind : Decoder Kind := do
  let b ← byte
  match Kind.ofTag? b.toNat with
  | some k => return k
  | none => throw (.protocol (.kindTag b.toNat))

/-- Takes a type tag. -/
def typeTag : Decoder TypeTag := do
  let b ← byte
  match Coded.ofCode? b.toNat with
  | some t => return t
  | none => throw (.protocol (.typeTag b))

/-- Takes a type. -/
def type : Decoder Ty := do
  match ← typeTag with
  | .undefined => return .undefined
  | .boolean => return .boolean
  | .character => return .character
  | .integer => return .integer
  | .real => return .real
  | .longReal => return .longReal
  | .text => return .text
  | .ref => return .ref (← string)
  | .procedure => return .procedure
  | .label => return .label

/-- Takes a character that is stored in one unit. -/
def character : Decoder Char := do
  let n ← nat 2
  if n.isValidChar then return Char.ofNat n
  else throw (.protocol (.characterUnit (UInt16.ofNat n)))

/-- Takes a constant; references, procedures and labels have none. -/
def constant : Decoder Constant := do
  match ← typeTag with
  | .undefined => return .null
  | .boolean => return .boolean (← flag)
  | .character => return .character (← character)
  | .integer => return .integer (← short)
  | .real => return .real (UInt32.ofNat (← nat 4))
  | .longReal => return .longReal (UInt64.ofNat (← nat 8))
  | .text => return .text (← string)
  | .ref => throw (.unsupportedConstant (.taggedConstant .ref))
  | .procedure => throw (.unsupportedConstant (.taggedConstant .procedure))
  | .label => throw (.unsupportedConstant (.taggedConstant .label))

/-- Takes the code of a value of a closed set. -/
def coded (α : Type) [DecidableEq α] [Coded α] (what : String) : Decoder α := do
  let b ← byte
  match Coded.ofCode? b.toNat with
  | some a => return a
  | none => throw (.protocol (.unknownCode what b))

end Decoder

end Simula
