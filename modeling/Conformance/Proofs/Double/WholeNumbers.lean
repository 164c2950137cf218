import Conformance.Json
import Conformance.Proofs.Double.Rounding

/-!
# Whole numbers are finite

Rounding a whole number keeps its size up to one unit of the last place, so a
number far from the last binade has a finite rank. The whole numbers that a
document can hold are all among these.
-/
namespace Conformance

theorem nearestRank_one_le {n k : Nat} (hn : n < 2 ^ k) (hk : 53 ≤ k) :
    nearestRank n 1 ≤ (k - 51) * binade := by
  apply nearestRank_le Nat.one_pos
  have hs : k - 51 = k - 52 + 1 := by omega
  have hp : 52 + (k - 52) = k := by omega
  have hu : units ((k - 51) * binade) = 2 ^ k := by
    rw [← Nat.add_zero ((k - 51) * binade), hs, units_normal (by decide), Nat.add_zero, binade,
      Nat.pow_eq, ← Nat.pow_add, hp]
  rw [hu, Nat.mul_one]
  exact hn.le

theorem nearestRank_mul_le {n u k : Nat} (hn : n < 2 ^ k) (hu : 52 ≤ u.log2) :
    nearestRank (n * u) 1 ≤ (k + (u.log2 + 1) - 51) * binade := by
  have hlt : n * u < 2 ^ (k + (u.log2 + 1)) := by
    rw [Nat.pow_add]
    exact Nat.mul_lt_mul'' hn Nat.lt_log2_self
  exact nearestRank_one_le hlt (by omega)

theorem rankOfNat_le {n k : Nat} (hn : n < 2 ^ k) : rankOfNat n ≤ (k + 1024) * binade := by
  have hu : unitsOfOne.log2 = 1074 := by decide +kernel
  have h := nearestRank_mul_le hn (by rw [hu]; decide)
  rw [hu] at h
  exact h

namespace Json.Number

theorem exists_toDouble_eq (n : Number) : ∃ x, n.toDouble = .finite x := by
  cases n with
  | float x => exact ⟨x, rfl⟩
  | integer n lower upper =>
    have hn : n.natAbs < 2 ^ 65 := by omega
    have hr : rankOfNat n.natAbs < infiniteRank :=
      Nat.lt_of_le_of_lt (rankOfNat_le hn) (by decide)
    exact ⟨_, dif_pos hr⟩

def asFloat (n : Number) : Number :=
  match n.toDouble with
  | .finite x => .float x
  | _ => n

end Json.Number
end Conformance
