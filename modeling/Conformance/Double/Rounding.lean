import Conformance.Double

/-!
# Rounding to the nearest binary64 number

`nearestRank` rounds an exact quotient, given in multiples of the least positive
magnitude, to the rank of the nearest magnitude; halfway between two magnitudes
it takes the one of even rank. Carries into the next binade and overflow past
the finite ranks need no case of their own, because consecutive magnitudes have
consecutive ranks. Whole numbers, products and quotients are this one rounding
applied to their exact values.
-/
namespace Conformance

def roundQuotient (num den : Nat) : Nat :=
  let whole := num / den
  let rest := num % den
  if 2 * rest < den then whole
  else if den < 2 * rest then whole + 1
  else whole + whole % 2

/-- The rank of the magnitude nearest to `num / den` least positive magnitudes. -/
def nearestRank (num den : Nat) : Nat :=
  let scale := (num / den).log2 - 52
  roundQuotient num (den * Nat.pow 2 scale) + scale * binade

def rankOfNat (n : Nat) : Nat := nearestRank (n * unitsOfOne) 1

def productRank (a b : Nat) : Nat := nearestRank (units a * units b) unitsOfOne

def quotientRank (a b : Nat) : Nat := nearestRank (units a * unitsOfOne) (units b)

namespace Double

def ofNat (n : Nat) : Double := ofRank false (rankOfNat n)

def ofInt (n : Int) : Double := ofRank (decide (n < 0)) (rankOfNat n.natAbs)

end Double
end Conformance
