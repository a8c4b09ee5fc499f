/-!
# Shortest decimals of binary numbers

A finite binary number is printed with the fewest digits that still identify it: among the
decimals that round to it, one on the coarsest grid of powers of ten, and of those the
nearest. When two are equally near the larger is taken.

Numbers are given by their bits, and all arithmetic is on natural numbers.
-/

namespace Simula.Decimal

/-- The widths of the two fields of an interchange format after its sign bit. -/
structure BinaryFormat where
  exponentBits : Nat
  fractionBits : Nat

/-- The four-byte format. -/
def single : BinaryFormat := ⟨8, 23⟩

/-- The eight-byte format. -/
def double : BinaryFormat := ⟨11, 52⟩

/-- What a bit pattern stands for; a finite number is `significand * 2 ^ exponent`. -/
inductive BinaryNumber
  | nan
  | infinite (negative : Bool)
  | finite (negative : Bool) (significand : Nat) (exponent : Int) (closeBelow : Bool)

/-- Reads a bit pattern; `closeBelow` marks the numbers whose lower neighbour is only half
as far away as their upper one. -/
def BinaryFormat.decode (f : BinaryFormat) (bits : Nat) : BinaryNumber :=
  let fraction := bits % Nat.pow 2 f.fractionBits
  let exponent := bits / Nat.pow 2 f.fractionBits % Nat.pow 2 f.exponentBits
  let negative := bits / Nat.pow 2 (f.fractionBits + f.exponentBits) % 2 == 1
  let least : Int := 2 - (Nat.pow 2 (f.exponentBits - 1) : Nat) - f.fractionBits
  if exponent = Nat.pow 2 f.exponentBits - 1 then
    if fraction = 0 then .infinite negative else .nan
  else if exponent = 0 then .finite negative fraction least false
  else .finite negative (Nat.pow 2 f.fractionBits + fraction) (least + exponent - 1) (fraction == 0)

/-- A fraction of natural numbers. -/
structure Ratio where
  num : Nat
  den : Nat

/-- `n * 2 ^ e` as a fraction. -/
def Ratio.scaled (n : Nat) (e : Int) : Ratio :=
  if 0 ≤ e then ⟨n * Nat.pow 2 e.toNat, 1⟩ else ⟨n, Nat.pow 2 (-e).toNat⟩

/-- Whether one fraction is at most another. -/
def Ratio.le (a b : Ratio) : Bool := a.num * b.den ≤ b.num * a.den

/-- Whether one fraction is below another. -/
def Ratio.lt (a b : Ratio) : Bool := a.num * b.den < b.num * a.den

/-- `n * 10 ^ e` as a fraction. -/
def Ratio.tens (n : Nat) (e : Int) : Ratio :=
  if 0 ≤ e then ⟨n * Nat.pow 10 e.toNat, 1⟩ else ⟨n, Nat.pow 10 (-e).toNat⟩

/-- A positive number between the bounds of the decimals that round to it. -/
structure Interval where
  low : Ratio
  value : Ratio
  high : Ratio
  /-- Whether the bounds themselves round to the number. -/
  closed : Bool

/-- The decimals that round to `significand * 2 ^ exponent`. -/
def Interval.around (significand : Nat) (exponent : Int) (closeBelow : Bool) : Interval where
  low := .scaled (4 * significand - if closeBelow then 1 else 2) (exponent - 2)
  value := .scaled (4 * significand) (exponent - 2)
  high := .scaled (4 * significand + 2) (exponent - 2)
  closed := significand % 2 == 0

/-- Whether a fraction lies above the lower bound. -/
def Interval.aboveLow (i : Interval) (r : Ratio) : Bool :=
  if i.closed then i.low.le r else i.low.lt r

/-- Whether a fraction lies below the upper bound. -/
def Interval.belowHigh (i : Interval) (r : Ratio) : Bool :=
  if i.closed then r.le i.high else r.lt i.high

/-- The multiple of `10 ^ e` in the interval that is nearest to its number, the larger of
two equally near ones. -/
def Interval.onGrid (i : Interval) (e : Int) : Option Nat :=
  let unit := Ratio.tens 1 e
  let below := i.value.num * unit.den / (i.value.den * unit.num)
  let lowHit := i.aboveLow (.tens below e)
  let highHit := i.belowHigh (.tens (below + 1) e)
  let upNearer := (Ratio.tens (2 * below + 1) e).le ⟨2 * i.value.num, i.value.den⟩
  if lowHit && (!highHit || !upNearer) then some below
  else if highHit then some (below + 1)
  else none

/-- A decimal number `digits * 10 ^ exponent`. -/
structure DecimalNumber where
  digits : Nat
  exponent : Int

/-- Searches `n` grids downwards from `10 ^ e` for the first with a point in the interval. -/
def Interval.coarsest (i : Interval) : Nat → Int → DecimalNumber
  | 0, e => ⟨0, e⟩
  | n + 1, e =>
    match i.onGrid e with
    | some digits => ⟨digits, e⟩
    | none => i.coarsest n (e - 1)

/-- The exponent of the coarsest grid that is tried. -/
def coarsestExponent : Int := 400

/-- The number of grids that are tried; the last is finer than any number needs. -/
def gridCount : Nat := 1600

/-- The shortest decimal that rounds to a positive number. -/
def shortest (significand : Nat) (exponent : Int) (closeBelow : Bool) : DecimalNumber :=
  (Interval.around significand exponent closeBelow).coarsest gridCount coarsestExponent

/-- A text of digits without the zeros at its end. -/
def dropFinalZeros (digits : List Char) : List Char :=
  (digits.reverse.dropWhile (· == '0')).reverse

/-- A decimal written without an exponent. -/
def DecimalNumber.positional (d : DecimalNumber) : String :=
  if 0 ≤ d.exponent then toString (d.digits * Nat.pow 10 d.exponent.toNat)
  else
    let places := (-d.exponent).toNat
    let whole := d.digits / Nat.pow 10 places
    let part := Nat.toDigits 10 (d.digits % Nat.pow 10 places)
    let fraction := dropFinalZeros (List.replicate (places - part.length) '0' ++ part)
    if fraction.isEmpty then toString whole
    else toString whole ++ "." ++ String.ofList fraction

/-- The printed form of a bit pattern. -/
def BinaryFormat.print (f : BinaryFormat) (bits : Nat) : String :=
  match f.decode bits with
  | .nan => "NaN"
  | .infinite negative => (if negative then "-" else "") ++ "inf"
  | .finite negative significand exponent closeBelow =>
    (if negative then "-" else "") ++
      if significand = 0 then "0" else (shortest significand exponent closeBelow).positional

end Simula.Decimal
