namespace BlockDiagram

-- The sign of an exponent is true if negative.
structure Numeral where
  negative : Bool
  whole : List Nat
  fraction : List Nat
  exponent : Option (Bool × List Nat)
deriving DecidableEq, Repr

def ofDigits (digits : List Nat) : Nat := digits.foldl (fun value digit => value * 10 + digit) 0

def wordLimit : Nat := 18446744073709551616

def absorb (significand : Nat) : List Nat → Nat × List Nat
  | [] => (significand, [])
  | digit :: rest =>
    if significand * 10 + digit < wordLimit then absorb (significand * 10 + digit) rest
    else (significand, digit :: rest)

def powerOfTen (exponent : Nat) : Float := Float.ofScientific 1 false exponent

def largestPower : Nat := 308

def scaleDown (value : Float) (places : Nat) : Float :=
  if places ≤ largestPower then value / powerOfTen places
  else if value == 0 then value
  else scaleDown (value / powerOfTen largestPower) (places - largestPower)
termination_by places
decreasing_by simp only [largestPower] at *; omega

def scaleUp (value : Float) (places : Nat) : Option Float :=
  if places ≤ largestPower then
    let scaled := value * powerOfTen places
    if scaled.isInf then none else some scaled
  else if value == 0 then some value
  else none

namespace Numeral

def natural? (numeral : Numeral) : Option Nat :=
  if numeral.negative || !numeral.fraction.isEmpty || numeral.exponent.isSome then none
  else
    let value := ofDigits numeral.whole
    if value < wordLimit then some value else none

def exponentValue (numeral : Numeral) : Int :=
  match numeral.exponent with
  | none => 0
  | some (negative, digits) => if negative then -(ofDigits digits : Int) else ofDigits digits

-- Digits of the whole part that do not fit the significand count as places;
-- those of the fraction are dropped.
def real? (numeral : Numeral) : Option Float :=
  let (whole, unread) := absorb 0 numeral.whole
  let (significand, dropped) := absorb whole numeral.fraction
  let places : Int := (unread.length : Int) - ((numeral.fraction.length - dropped.length : Nat) : Int) +
    numeral.exponentValue
  let magnitude := (UInt64.ofNat significand).toFloat
  let scaled :=
    if 0 ≤ places then scaleUp magnitude places.toNat
    else some (scaleDown magnitude (-places).toNat)
  scaled.map (fun value => if numeral.negative then -value else value)

end Numeral
end BlockDiagram
