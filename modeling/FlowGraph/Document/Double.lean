/-!
# Doubles

A double is a whole number of at most 53 binary digits times a power of two.
Fractions are rounded to the nearest double, halves to the even one.

A decimal is read in steps: its digits are rounded to a double, which is then
multiplied or divided by the double of a power of ten.  Each step rounds, so
the outcome may be a neighbour of the double that is nearest to the decimal.
A double is written with the fewest digits that are nearest to it and to no
other.

* `Double.nearest`: the double nearest to a fraction.
* `Double.ofDecimal?`: the double that a decimal is read as.
* `Double.shortest`: the decimal that a double is written as.
-/

namespace FlowGraph

/-- The double `digits * 2 ^ scale`.  The highest of the 53 binary digits is
set, but for the least scale. -/
structure Double where
  digits : Nat
  scale : Int
deriving DecidableEq, Repr

namespace Double

/-- The number of binary digits of a double. -/
def precision : Nat := 53

/-- The scale of the smallest doubles. -/
def leastScale : Int := -1074

/-- The scale of the largest doubles. -/
def topScale : Int := 971

/-- The numerator of a double as a fraction. -/
def num (value : Double) : Nat := value.digits * Nat.pow 2 value.scale.toNat

/-- The denominator of a double as a fraction. -/
def den (value : Double) : Nat := Nat.pow 2 (-value.scale).toNat

/-- The whole number nearest to a fraction; of two that are, the even one. -/
def roundHalfEven (num den : Nat) : Nat :=
  let whole := num / den
  let rest := num % den
  if 2 * rest > den ∨ (2 * rest = den ∧ whole % 2 = 1) then whole + 1 else whole

/-- A fraction in units of `base ^ scale`, as numerator and denominator. -/
def inUnits (base num den : Nat) (scale : Int) : Nat × Nat :=
  (num * Nat.pow base (-scale).toNat, den * Nat.pow base scale.toNat)

/-- The scale that leaves 53 binary digits of a fraction before the point, if it
is not below the least one. -/
def scaleOf (num den : Nat) : Int :=
  let low : Int := max ((num.log2 : Int) - den.log2 - precision) leastScale
  let (n, d) := inUnits 2 num den low
  if n / d < Nat.pow 2 precision then low else low + 1

/-- The double nearest to a fraction, as if there were no largest one. -/
def nearest (num den : Nat) : Double :=
  let scale := if num = 0 then leastScale else scaleOf num den
  let (n, d) := inUnits 2 num den scale
  let digits := roundHalfEven n d
  if digits < Nat.pow 2 precision then ⟨digits, scale⟩
  else ⟨Nat.pow 2 (precision - 1), scale + 1⟩

/-! ## Reading -/

/-- The exponent of the largest power of ten within the range of doubles. -/
def topPower : Nat := 308

/-- The double nearest to a power of ten. -/
def powerOfTen (exponent : Nat) : Double := nearest (Nat.pow 10 exponent) 1

/-- The product of two doubles, if it is within their range. -/
def times? (a b : Double) : Option Double :=
  let product := nearest (a.num * b.num) (a.den * b.den)
  if product.scale ≤ topScale then some product else none

/-- The quotient of two doubles. -/
def dividedBy (a b : Double) : Double := nearest (a.num * b.den) (a.den * b.num)

/-- A double divided by a power of ten: by the largest one first if need be.
Of 64 bits, dividing by that one twice leaves nothing. -/
def shrink (value : Double) (places : Nat) : Double :=
  if places ≤ topPower then value.dividedBy (powerOfTen places)
  else if places ≤ 2 * topPower then
    (value.dividedBy (powerOfTen topPower)).dividedBy (powerOfTen (places - topPower))
  else nearest 0 1

/-- The double that `significand * 10 ^ exponent` is read as, unless it is too
large; the significand has 64 bits. -/
def ofDecimal? (significand : Nat) (exponent : Int) : Option Double :=
  let start := nearest significand 1
  if significand = 0 then some start
  else if exponent < 0 then some (start.shrink (-exponent).toNat)
  else if exponent ≤ topPower then start.times? (powerOfTen exponent.toNat)
  else none

/-! ## Writing -/

/-- Is the double the one nearest to `significand * 10 ^ exponent`? -/
def isNearestTo (value : Double) (significand : Nat) (exponent : Int) : Bool :=
  nearest (significand * Nat.pow 10 exponent.toNat) (Nat.pow 10 (-exponent).toNat) == value

/-- The multiple of a power of ten that the double is nearest to; of two such
multiples the one that is closer to it, or else the even one. -/
def onGrid? (value : Double) (exponent : Int) : Option Nat :=
  let (n, d) := inUnits 10 value.num value.den exponent
  let closer := roundHalfEven n d
  let other := if closer = n / d then closer + 1 else closer - 1
  if value.isNearestTo closer exponent then some closer
  else if value.isNearestTo other exponent then some other
  else none

/-- The least exponent such that the power of ten is above the double. -/
def decimalExponent (value : Double) : Int :=
  let low : Int := (Nat.toDigits 10 value.num).length - (Nat.toDigits 10 value.den).length
  let (n, d) := inUnits 10 value.num value.den low
  if n < d then low else low + 1

/-- The number of decimal digits that tell any two doubles apart. -/
def decimalPrecision : Nat := 17

/-- The fewest digits that the double is nearest to, and the exponent of the power
of ten that they count. -/
def shortest (value : Double) : Nat × Int :=
  let top := value.decimalExponent
  let found := (List.range decimalPrecision).findSome? fun n =>
    let exponent := top - (n + 1 : Nat)
    (value.onGrid? exponent).map fun digits => (digits, exponent)
  found.getD (value.num * Nat.pow 5 (-value.scale).toNat, min value.scale 0)

end Double

end FlowGraph
