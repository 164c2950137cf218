/-!
# Binary64 numbers

A finite number is a sign together with the rank of its magnitude among all
finite magnitudes: rank `0` is zero, rank `1` the least positive magnitude, and
the magnitudes ascend with the rank. `units` gives the magnitude of a rank as an
exact multiple of the least positive one, so every computation on finite
numbers is a computation on naturals. The first rank past the finite ones is
the place of infinity.

Two equalities are kept apart. `Double.equals` is the numerical one, under which
the two zeros agree and a NaN agrees with nothing; `Double.same` also lets a NaN
agree with a NaN.
-/
namespace Conformance

/-- Magnitudes of one binade; also the rank of the least normal magnitude. -/
def binade : Nat := Nat.pow 2 52

def infiniteRank : Nat := 0x7FF * binade

/-- The magnitude of a rank, in multiples of the least positive magnitude. -/
def units (rank : Nat) : Nat :=
  if rank < binade then rank else (binade + rank % binade) * Nat.pow 2 (rank / binade - 1)

def unitsOfOne : Nat := Nat.pow 2 1074

structure Finite where
  negative : Bool
  rank : Nat
  rank_lt : rank < infiniteRank
deriving DecidableEq

inductive Double
  | finite (value : Finite)
  | infinite (negative : Bool)
  | nan
deriving DecidableEq

namespace Finite

def zero : Finite := ⟨false, 0, by decide⟩

def equals (a b : Finite) : Bool :=
  a.rank == b.rank && (a.rank == 0 || a.negative == b.negative)

theorem equals_refl (a : Finite) : a.equals a = true := by
  simp [equals]

theorem equals_comm (a b : Finite) : a.equals b = b.equals a := by
  by_cases h : a.rank = b.rank
  · simp [equals, h, Bool.beq_comm]
  · have h' : (a.rank == b.rank) = false := by simp [h]
    have h'' : (b.rank == a.rank) = false := by simp [Ne.symm h]
    simp [equals, h', h'']

end Finite

namespace Double

/-- The number of the given sign whose magnitude has the given rank; past the finite ranks this
is the infinity of that sign. -/
def ofRank (negative : Bool) (rank : Nat) : Double :=
  if h : rank < infiniteRank then .finite ⟨negative, rank, h⟩ else .infinite negative

def isFinite : Double → Bool
  | .finite _ => true
  | _ => false

/-- Numerical equality: `0` equals `-0`, and NaN equals nothing. -/
def equals : Double → Double → Bool
  | .finite a, .finite b => a.equals b
  | .infinite a, .infinite b => a == b
  | _, _ => false

theorem equals_comm (x y : Double) : x.equals y = y.equals x := by
  cases x <;> cases y <;> simp only [equals]
  · exact Finite.equals_comm _ _
  · exact Bool.beq_comm

theorem equals_trans {x y z : Double} (hxy : x.equals y = true) (hyz : y.equals z = true) :
    x.equals z = true := by
  cases x <;> cases y <;> cases z <;>
    simp only [equals, Finite.equals, Bool.and_eq_true, Bool.or_eq_true, beq_iff_eq,
      Bool.false_eq_true] at hxy hyz ⊢
  · grind
  · exact hxy.trans hyz

theorem equals_right {x y : Double} (h : x.equals y = true) (z : Double) :
    z.equals x = z.equals y := by
  rw [Bool.eq_iff_iff]
  exact ⟨fun hz => equals_trans hz h, fun hz => equals_trans hz (equals_comm x y ▸ h)⟩

/-- The equality of a total order on numbers: as `equals`, and NaN is the same as NaN. -/
def same : Double → Double → Bool
  | .nan, .nan => true
  | a, b => equals a b

end Double
end Conformance
