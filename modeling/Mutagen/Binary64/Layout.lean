import Mutagen.Binary64.Shortest

set_option autoImplicit false

namespace Mutagen.Binary64

structure Layout where
  fraction : Bool
  inPlace : Int → Bool

namespace Layout

def plain : Layout := ⟨false, fun _ => true⟩

def fractional : Layout := ⟨true, fun _ => true⟩

def scientific : Layout := ⟨true, fun e => -4 ≤ e && e < 16⟩

end Layout

namespace Decimal

def inPlace (fraction : Bool) (d : Decimal) : List Char :=
  if d.exponent < 0 then
    "0.".toList ++ List.replicate (-d.exponent - 1).toNat '0' ++ d.digits
  else
    let whole := d.exponent.toNat + 1
    if d.digits.length ≤ whole then
      d.digits ++ List.replicate (whole - d.digits.length) '0' ++
        (if fraction then ".0".toList else [])
    else d.digits.take whole ++ '.' :: d.digits.drop whole

def withExponent (d : Decimal) : List Char :=
  d.digits.take 1 ++ (if d.digits.length ≤ 1 then [] else '.' :: d.digits.drop 1) ++
    'e' :: (toString d.exponent).toList

end Decimal

def finiteText (layout : Layout) (magnitude : Nat) : List Char :=
  if magnitude = 0 then if layout.fraction then "0.0".toList else "0".toList
  else
    let d := shortest magnitude
    if layout.inPlace d.exponent then d.inPlace layout.fraction else d.withExponent

def text (layout : Layout) (x : Binary64) : List Char :=
  if x.isNaN then "NaN".toList
  else
    (if x.isNegative then ['-'] else []) ++
      (if x.isInfinite then "inf".toList else finiteText layout x.magnitude)

end Mutagen.Binary64
