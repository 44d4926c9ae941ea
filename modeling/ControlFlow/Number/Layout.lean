import ControlFlow.Number.Shortest
/-!
# How a floating-point number is written

A layout decides which numbers are written with a point only and which with a power of ten, how that
power is spelled, and which of two equally near decimals is written. The digits are always the
fewest that read back.
-/

namespace ControlFlow.Number

/-- The decisions of one way of writing floating-point numbers. -/
structure Layout where
  /-- What is written where two decimals of the fewest digits are equally near. -/
  tie : Tie
  /-- The least power of ten of a first digit that is still written with a point only. -/
  leastPower : Int
  /-- The least power of ten of a first digit that is written as a power again. -/
  powerLimit : Int
  /-- What stands before a power that is not negative. -/
  powerSign : String
  notANumber : String
  positiveInfinity : String
  negativeInfinity : String

/-- `n` times the digit zero. -/
def zeros (n : Nat) : String := String.ofList (List.replicate n '0')

/-- A number with a point only: at least one digit stands on each side of it. -/
def positional (digits : List Char) (exponent : Int) : String :=
  if 0 ≤ exponent then
    String.ofList digits ++ zeros exponent.toNat ++ ".0"
  else
    let places := (-exponent).toNat
    if places < digits.length then
      let whole := digits.length - places
      String.ofList (digits.take whole) ++ "." ++ String.ofList (digits.drop whole)
    else
      "0." ++ zeros (places - digits.length) ++ String.ofList digits

/-- A number with one digit before the point and a power of ten. -/
def powered (sign : String) (digits : List Char) (power : Int) : String :=
  let tail := digits.drop 1
  let mantissa :=
    String.ofList (digits.take 1) ++ if tail.isEmpty then "" else "." ++ String.ofList tail
  let mark := if power < 0 then "e-" else "e" ++ sign
  mantissa ++ mark ++ toString power.natAbs

namespace Layout

/-- The text of a number that is neither negative nor zero. -/
def positive (l : Layout) (significand : Nat) (exponent : Int) : String :=
  let d := shortest l.tie significand exponent
  let digits := Nat.toDigits 10 d.digits
  let power := d.exponent + digits.length - 1
  if l.leastPower ≤ power ∧ power < l.powerLimit then positional digits d.exponent
  else powered l.powerSign digits power

/-- The text of a number. -/
def write (l : Layout) (x : Binary64) : String :=
  match x.value with
  | .nan => l.notANumber
  | .infinite negative => if negative then l.negativeInfinity else l.positiveInfinity
  | .finite negative significand exponent =>
    (if negative then "-" else "") ++
      if significand = 0 then "0.0" else l.positive significand exponent

end Layout

/-- Numbers as the text of a graph shows them: `0.0001`, `1e16`, `NaN`. A tie goes up. -/
def display : Layout where
  tie := .upward
  leastPower := -4
  powerLimit := 16
  powerSign := ""
  notANumber := "NaN"
  positiveInfinity := "inf"
  negativeInfinity := "-inf"

/-- Numbers in JSON: `0.00001`, `1e+16`; what is not finite is `null`. A tie goes to the even
digit. -/
def json : Layout where
  tie := .toEven
  leastPower := -5
  powerLimit := 16
  powerSign := "+"
  notANumber := "null"
  positiveInfinity := "null"
  negativeInfinity := "null"

end ControlFlow.Number
