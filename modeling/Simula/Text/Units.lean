/-!
# Sixteen-bit text units

Attribute files store text as sixteen-bit units. A character below 65536 is one unit; any
other is a pair, a leading unit followed by a trailing unit, each carrying ten bits.

Decoding refuses a leading unit without its partner and a trailing unit on its own, so
every text has exactly one sequence of units and every accepted sequence comes from a text.
-/

namespace Simula.Text

/-- Whether a unit is the first half of a pair. -/
def isLeading (u : UInt16) : Bool := 0xD800 ≤ u.toNat && u.toNat < 0xDC00

/-- Whether a unit is the second half of a pair. -/
def isTrailing (u : UInt16) : Bool := 0xDC00 ≤ u.toNat && u.toNat < 0xE000

/-- The units of one character. -/
def charUnits (c : Char) : List UInt16 :=
  if c.toNat < 0x10000 then [UInt16.ofNat c.toNat]
  else
    [UInt16.ofNat (0xD800 + (c.toNat - 0x10000) / 0x400),
      UInt16.ofNat (0xDC00 + (c.toNat - 0x10000) % 0x400)]

/-- The units of a text. -/
def toUnits (s : List Char) : List UInt16 := s.flatMap charUnits

/-- The character that a pair of units stands for. -/
def pairChar (lead trail : UInt16) : Char :=
  Char.ofNat (0x10000 + (lead.toNat - 0xD800) * 0x400 + (trail.toNat - 0xDC00))

/-- The text of a sequence of units, unless a half of a pair stands alone. -/
def ofUnits? : List UInt16 → Option (List Char)
  | [] => some []
  | u :: rest =>
    if isLeading u then
      match rest with
      | [] => none
      | v :: rest => if isTrailing v then (ofUnits? rest).map (pairChar u v :: ·) else none
    else if isTrailing u then none
    else (ofUnits? rest).map (Char.ofNat u.toNat :: ·)

end Simula.Text
