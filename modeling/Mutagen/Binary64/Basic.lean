set_option autoImplicit false

-- A power of natural numbers is `Nat.pow`, whatever other powers are in scope.
attribute [instance (2000)] instPowNat
attribute [default_instance 20000] instPowNat

namespace Mutagen

structure Binary64 where
  bits : UInt64
deriving DecidableEq, Repr

namespace Binary64

def infinite : Nat := 2047 * 2 ^ 52

def unit : Nat := 1023 * 2 ^ 52

def magnitude (x : Binary64) : Nat := x.bits.toNat % 2 ^ 63

def isNegative (x : Binary64) : Bool := 2 ^ 63 ≤ x.bits.toNat

def isNaN (x : Binary64) : Bool := infinite < x.magnitude

def isInfinite (x : Binary64) : Bool := x.magnitude == infinite

def ofMagnitude (magnitude : Nat) : Binary64 := ⟨UInt64.ofNat magnitude⟩

def binade (magnitude : Nat) : Nat := magnitude / 2 ^ 52 - 1

def units (magnitude : Nat) : Nat :=
  (magnitude - binade magnitude * 2 ^ 52) * 2 ^ binade magnitude

def roundHalfEven (n d : Nat) : Nat :=
  let quotient := n / d
  let remainder := n % d
  if 2 * remainder < d then quotient
  else if d < 2 * remainder then quotient + 1
  else quotient + quotient % 2

/-- The magnitude nearest to `n / d`. A significand rounded up to the next power of two carries
into the exponent by itself, because magnitudes are contiguous. -/
def nearest (n d : Nat) : Nat :=
  let scaled := n * 2 ^ 1074
  let binade := (scaled / d).log2 - 52
  min (binade * 2 ^ 52 + roundHalfEven scaled (d * 2 ^ binade)) infinite

/-- The magnitude nearest to `n * 10 ^ e`. Far outside the range of finite values the answer is
known without the power of ten. -/
def nearestDecimal (n : Nat) (e : Int) : Nat :=
  if n = 0 then 0
  else if 400 < e then infinite
  else if e + (n.log2 + 1) < -400 then 0
  else if 0 ≤ e then nearest (n * 10 ^ e.toNat) 1
  else nearest n (10 ^ (-e).toNat)

def inUnitInterval (x : Binary64) : Bool :=
  if x.isNegative then x.magnitude == 0 else x.magnitude ≤ unit

def scaled64 (magnitude : Nat) : Nat := units magnitude / 2 ^ 1010

end Binary64

end Mutagen
