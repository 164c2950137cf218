import Conformance.Double

/-!
# The fewest decimal digits that identify a magnitude

The reals that round to a magnitude reach from halfway to the magnitude below
to halfway to the magnitude above; the two ends belong to it exactly when its
rank is even. `shortest` tries one digit, two digits and so on up to seventeen.
For each count it looks at the two neighbours of the magnitude on the grid of
decimals with that many digits, and the first grid with a neighbour inside
wins. Of two neighbours inside the nearer is taken; when they are equally near,
the rule `Tie` decides.
-/
namespace Conformance

structure Decimal where
  digits : Nat
  exponent : Int
deriving DecidableEq

inductive Tie
  | toEven
  | upward
deriving DecidableEq

/-- Whether a decimal lies among the reals that round to the magnitude of the given rank. -/
def identifies (rank : Nat) (d : Decimal) : Bool :=
  let twice := 2 * (d.digits * Nat.pow 10 d.exponent.toNat * unitsOfOne)
  let scale := Nat.pow 10 (-d.exponent).toNat
  let low := (units (rank - 1) + units rank) * scale
  let high := (units rank + units (rank + 1)) * scale
  if rank % 2 == 0 then low ≤ twice && twice ≤ high else low < twice && twice < high

def neighbour (tie : Tie) (rank : Nat) (exponent : Int) : Option Decimal :=
  let num := units rank * Nat.pow 10 (-exponent).toNat
  let den := unitsOfOne * Nat.pow 10 exponent.toNat
  let below : Decimal := ⟨num / den, exponent⟩
  let above : Decimal := ⟨num / den + 1, exponent⟩
  match identifies rank below, identifies rank above with
  | true, true =>
    match compare (2 * (num % den)) den, tie with
    | .lt, _ => some below
    | .gt, _ => some above
    | .eq, .upward => some above
    | .eq, .toEven => some (if num / den % 2 == 0 then below else above)
  | true, false => some below
  | false, true => some above
  | false, false => none

def leadingExponent (rank : Nat) : Int :=
  (Nat.toDigits 10 (units rank * Nat.pow 10 400 / unitsOfOne)).length - 401

def stripZeros (digits : Nat) (exponent : Int) : Decimal :=
  if h : digits % 10 = 0 ∧ digits ≠ 0 then stripZeros (digits / 10) (exponent + 1)
  else ⟨digits, exponent⟩
termination_by digits
decreasing_by omega

def shortest (tie : Tie) (rank : Nat) : Decimal :=
  let top := leadingExponent rank
  match (List.range 17).findSome? fun (n : Nat) => neighbour tie rank (top - n) with
  | some d => stripZeros d.digits d.exponent
  | none => stripZeros (units rank * Nat.pow 5 1074) (-1074)

end Conformance
