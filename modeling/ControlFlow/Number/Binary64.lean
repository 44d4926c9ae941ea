/-!
# Floating-point numbers of 64 bits

A `Binary64` is its bits: a sign, eleven bits of exponent and fifty-two bits of fraction. `value`
says which number the bits stand for, and `ofRatio` finds the bits of the number closest to a
quotient of natural numbers, a tie going to the even significand. All arithmetic is exact and on
natural numbers.
-/

namespace ControlFlow

/-- A floating-point number of 64 bits, by its bits. -/
structure Binary64 where
  bits : UInt64
deriving DecidableEq, Repr, Inhabited

namespace Binary64

/-- What the bits of a number stand for. -/
inductive Value where
  /-- Not a number. -/
  | nan
  /-- An infinity. -/
  | infinite (negative : Bool)
  /-- The number `± significand * 2 ^ exponent`. -/
  | finite (negative : Bool) (significand : Nat) (exponent : Int)
deriving DecidableEq, Repr

/-- `2 ^ 52`, the least significand with a full set of digits. -/
def leastFull : Nat := Nat.pow 2 52

/-- The exponent of the numbers next to zero. -/
def leastExponent : Int := -1074

/-- The value that the bits of a number stand for. -/
def value (x : Binary64) : Value :=
  let n := x.bits.toNat
  let negative := n / Nat.pow 2 63 = 1
  let exponent := n / leastFull % 2048
  let fraction := n % leastFull
  if exponent = 2047 then
    if fraction = 0 then .infinite negative else .nan
  else if exponent = 0 then
    .finite negative fraction leastExponent
  else
    .finite negative (leastFull + fraction) (leastExponent + (exponent - 1))

/-- The number with the given sign whose other bits are `magnitude`. -/
def ofMagnitude (negative : Bool) (magnitude : Nat) : Binary64 :=
  ⟨UInt64.ofNat (magnitude + if negative then Nat.pow 2 63 else 0)⟩

/-- The bits of an infinity, its sign apart. -/
def infiniteMagnitude : Nat := 2047 * leastFull

/-- An infinity. -/
def infinity (negative : Bool) : Binary64 := ofMagnitude negative infiniteMagnitude

/-- A number that is none. -/
def nan : Binary64 := ofMagnitude false (infiniteMagnitude + leastFull / 2)

/-- A zero. -/
def zero (negative : Bool) : Binary64 := ofMagnitude negative 0

/-- The natural number closest to `num / den`; of two that are equally close, the even one. -/
def roundHalfEven (num den : Nat) : Nat :=
  let q := num / den
  let r := num % den
  if 2 * r < den then q
  else if 2 * r = den then q + q % 2
  else q + 1

/-- `num / den / 2 ^ e` as a fraction. -/
def scaleDown (num den : Nat) (e : Int) : Nat × Nat :=
  if e < 0 then (num * Nat.pow 2 (-e).toNat, den) else (num, den * Nat.pow 2 e.toNat)

/-- The exponent of the significand of `num / den`: the largest `e` for which
`num / den / 2 ^ e` is at least `leastFull`, and not below `leastExponent`. -/
def exponentOf (num den : Nat) : Int :=
  let e : Int := (Nat.log2 num : Int) - (Nat.log2 den : Int) - 52
  let (n, d) := scaleDown num den e
  let e := if n / d < leastFull then e - 1 else e
  max e leastExponent

/-- The number closest to `± num / den`; beyond the largest number it is an infinity. -/
def ofRatio (negative : Bool) (num den : Nat) : Binary64 :=
  if num = 0 then zero negative
  else
    let e := exponentOf num den
    let (n, d) := scaleDown num den e
    let magnitude := (e - leastExponent).toNat * leastFull + roundHalfEven n d
    ofMagnitude negative (min magnitude infiniteMagnitude)

/-- The number closest to `± significand * 10 ^ exponent`. -/
def ofDecimal (negative : Bool) (significand : Nat) (exponent : Int) : Binary64 :=
  if exponent < 0 then ofRatio negative significand (Nat.pow 10 (-exponent).toNat)
  else ofRatio negative (significand * Nat.pow 10 exponent.toNat) 1

/-- The size of a finite number as a quotient of natural numbers. -/
def ratio (x : Binary64) : Nat × Nat :=
  match x.value with
  | .finite _ significand exponent =>
    (significand * Nat.pow 2 exponent.toNat, Nat.pow 2 (-exponent).toNat)
  | _ => (0, 1)

/-- The number closest to the product of the sizes of two finite numbers. -/
def mulSize (x y : Binary64) : Binary64 :=
  let (n, d) := x.ratio
  let (n', d') := y.ratio
  ofRatio false (n * n') (d * d')

/-- The number closest to the quotient of the sizes of two finite numbers, the second of which is
not zero. -/
def divSize (x y : Binary64) : Binary64 :=
  let (n, d) := x.ratio
  let (n', d') := y.ratio
  ofRatio false (n * d') (d * n')

/-- Whether a number is an infinity. -/
def isInfinite (x : Binary64) : Bool :=
  match x.value with
  | .infinite _ => true
  | _ => false

/-- A number that is not negative, with a sign. -/
def withSign (negative : Bool) (x : Binary64) : Binary64 := ofMagnitude negative x.bits.toNat

/-- The number closest to an integer. -/
def ofInt (n : Int) : Binary64 := ofRatio (n < 0) n.natAbs 1

end Binary64

end ControlFlow
