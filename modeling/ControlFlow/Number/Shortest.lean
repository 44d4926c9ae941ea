import ControlFlow.Number.Binary64
/-!
# The fewest digits that read back

Every floating-point number is the closest one to all numbers of an interval around it. `shortest`
finds the decimal with the fewest digits in that interval and, among those, the one nearest to the
number. For each count of digits only the two neighbours of the number on the grid of that count can
be nearest, so they alone are tried. Where both are equally near, a `Tie` decides.
-/

namespace ControlFlow.Number

/-- The number `digits * 10 ^ exponent`. -/
structure Decimal where
  digits : Nat
  exponent : Int
deriving DecidableEq, Repr, Inhabited

/-- Which of two equally near neighbours is taken. -/
inductive Tie where
  /-- The one whose last digit is even. -/
  | toEven
  /-- The larger one. -/
  | upward
deriving DecidableEq, Repr, Inhabited

/-- Whether a tie goes to the neighbour above `below`. -/
def Tie.goesUp (tie : Tie) (below : Nat) : Bool :=
  match tie with
  | .toEven => below % 2 = 1
  | .upward => true

/-- The numbers that round to one floating-point number, all over the denominator `den`: those
between `low` and `high`, the ends included if `closed`. -/
structure Interval where
  low : Nat
  center : Nat
  high : Nat
  den : Nat
  closed : Bool

namespace Interval

/-- The interval of `significand * 2 ^ exponent`. Below a power of two the floating-point numbers
stand twice as close, so the lower end is only a quarter of a unit away. -/
def of (significand : Nat) (exponent : Int) : Interval :=
  let lowGap :=
    if significand = Binary64.leastFull ∧ Binary64.leastExponent < exponent then 1 else 2
  let unit := Nat.pow 2 (exponent - 2).toNat
  { low := (4 * significand - lowGap) * unit
    center := 4 * significand * unit
    high := (4 * significand + 2) * unit
    den := Nat.pow 2 (2 - exponent).toNat
    closed := significand % 2 = 0 }

/-- `digits * 10 ^ exponent` and a numerator over `den`, as two natural numbers to be compared. -/
def scaled (i : Interval) (digits : Nat) (exponent : Int) (numerator : Nat) : Nat × Nat :=
  (digits * Nat.pow 10 exponent.toNat * i.den, numerator * Nat.pow 10 (-exponent).toNat)

/-- Whether the interval holds `digits * 10 ^ exponent`. -/
def holds (i : Interval) (digits : Nat) (exponent : Int) : Bool :=
  let (x, low) := i.scaled digits exponent i.low
  let (_, high) := i.scaled digits exponent i.high
  if i.closed then low ≤ x && x ≤ high else low < x && x < high

/-- The power of ten of the first digit of the center. -/
def leadingPower (i : Interval) : Int :=
  if i.den ≤ i.center then
    (Nat.toDigits 10 (i.center / i.den)).length - 1
  else
    let n := (Nat.toDigits 10 (i.den / i.center)).length
    if i.den ≤ i.center * Nat.pow 10 (n - 1) then 1 - n else - n

/-- The nearest decimal of the interval on the grid of `10 ^ exponent`. -/
def nearest? (i : Interval) (tie : Tie) (exponent : Int) : Option Decimal :=
  let (one, center) := i.scaled 1 exponent i.center
  let below := center / one
  let twice := 2 * (center % one)
  let up := one < twice || (twice = one && tie.goesUp below)
  let first := if up then below + 1 else below
  let second := if up then below else below + 1
  if i.holds first exponent then some ⟨first, exponent⟩
  else if i.holds second exponent then some ⟨second, exponent⟩
  else none

/-- The nearest decimal of the interval with the fewest digits, from `count` digits on, with `fuel`
counts to try. -/
def search (i : Interval) (tie : Tie) (power : Int) : Nat → Nat → Decimal
  | 0, _ => ⟨i.center / i.den, 0⟩
  | fuel + 1, count =>
    match i.nearest? tie (power - count + 1) with
    | some d => d
    | none => i.search tie power fuel (count + 1)

end Interval

/-- The same number without zeros at the end of its digits, of which there are at most `fuel`. -/
def Decimal.stripZeros : Nat → Decimal → Decimal
  | 0, d => d
  | fuel + 1, d =>
    if d.digits ≠ 0 ∧ d.digits % 10 = 0 then stripZeros fuel ⟨d.digits / 10, d.exponent + 1⟩ else d

/-- The decimal with the fewest digits that reads back as `significand * 2 ^ exponent`; seventeen
digits are always enough. -/
def shortest (tie : Tie) (significand : Nat) (exponent : Int) : Decimal :=
  let i := Interval.of significand exponent
  (i.search tie i.leadingPower 17 1).stripZeros 18

end ControlFlow.Number
