import Mutagen.Binary64.Basic

set_option autoImplicit false

namespace Mutagen.Binary64

structure Decimal where
  digits : List Char
  exponent : Int
deriving DecidableEq, Repr

def leadingExponent (magnitude : Nat) : Int :=
  ((Nat.toDigits 10 (units magnitude * 10 ^ 400 / 2 ^ 1074)).length : Int) - 401

def onGrid? (magnitude : Nat) (e : Int) : Option Nat :=
  let n := units magnitude * 10 ^ (-e).toNat
  let d := 2 ^ 1074 * 10 ^ e.toNat
  let lower := n / d
  let reads (candidate : Nat) : Bool := nearestDecimal candidate e == magnitude
  if reads lower then
    if d ≤ 2 * (n % d) && reads (lower + 1) then some (lower + 1) else some lower
  else if reads (lower + 1) then some (lower + 1)
  else none

/-- A coefficient and a power of ten. Seventeen digits are enough; the exact expansion stands
behind them, so that reading back does not rest on that bound. -/
def coefficient (magnitude : Nat) : Nat × Int :=
  let top := leadingExponent magnitude
  ((List.range 17).findSome? fun (places : Nat) =>
    (onGrid? magnitude (top - places)).map (·, top - places)).getD
    (units magnitude * 5 ^ 1074, -1074)

def Decimal.ofCoefficient (coefficient : Nat) (e : Int) : Decimal :=
  let digits := Nat.toDigits 10 coefficient
  ⟨(digits.reverse.dropWhile (· == '0')).reverse, e + digits.length - 1⟩

def shortest (magnitude : Nat) : Decimal :=
  Decimal.ofCoefficient (coefficient magnitude).1 (coefficient magnitude).2

end Mutagen.Binary64
