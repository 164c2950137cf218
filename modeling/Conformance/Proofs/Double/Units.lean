import Conformance.Double
import Mathlib.Tactic.NormNum
import Mathlib.Tactic.Linarith
import Mathlib.Tactic.Ring

/-!
# The spacing of magnitudes

The magnitude of the next rank is larger by a power of two that depends on the
binade alone. From this come the order of magnitudes, a bound on the largest,
and the bound on their spacing that lets seventeen digits tell them apart.
-/
namespace Conformance

theorem unitsOfOne_pos : 0 < unitsOfOne := by decide +kernel

theorem units_of_lt {rank : Nat} (h : rank < binade) : units rank = rank := if_pos h

theorem div_binade {q m : Nat} (hm : m < binade) : ((q + 1) * binade + m) / binade = q + 1 := by
  rw [Nat.mul_comm, Nat.mul_add_div (by decide), Nat.div_eq_of_lt hm, Nat.add_zero]

theorem units_normal {q m : Nat} (hm : m < binade) :
    units ((q + 1) * binade + m) = (binade + m) * 2 ^ q := by
  have hle : ¬ (q + 1) * binade + m < binade := by nlinarith
  have hmod : ((q + 1) * binade + m) % binade = m := by
    rw [Nat.mul_comm, Nat.mul_add_mod, Nat.mod_eq_of_lt hm]
  rw [units, if_neg hle, hmod, div_binade hm, Nat.add_sub_cancel, Nat.pow_eq]

theorem rank_cases (rank : Nat) :
    rank < binade ∨ ∃ q m, m < binade ∧ rank = (q + 1) * binade + m := by
  by_cases h : rank < binade
  · exact .inl h
  · have hb : 0 < binade := by decide
    have hq : 0 < rank / binade := Nat.div_pos (Nat.le_of_not_lt h) hb
    refine .inr ⟨rank / binade - 1, rank % binade, Nat.mod_lt _ hb, ?_⟩
    rw [Nat.sub_add_cancel hq, Nat.mul_comm, Nat.div_add_mod]

/-- How far the magnitude of the next rank is. -/
def step (rank : Nat) : Nat := 2 ^ (rank / binade - 1)

theorem step_pos (rank : Nat) : 0 < step rank := Nat.two_pow_pos _

theorem step_normal {q m : Nat} (hm : m < binade) : step ((q + 1) * binade + m) = 2 ^ q := by
  rw [step, div_binade hm, Nat.add_sub_cancel]

theorem step_of_lt {rank : Nat} (h : rank < binade) : step rank = 1 := by
  rw [step, Nat.div_eq_of_lt h, Nat.zero_sub, Nat.pow_zero]

theorem units_succ (rank : Nat) : units (rank + 1) = units rank + step rank := by
  obtain h | ⟨q, m, hm, rfl⟩ := rank_cases rank
  · rw [units_of_lt h, step_of_lt h]
    by_cases hs : rank + 1 < binade
    · exact units_of_lt hs
    · have he : rank + 1 = (0 + 1) * binade + 0 := by omega
      rw [he, units_normal (by decide)]
      omega
  · rw [units_normal hm, step_normal hm]
    by_cases hs : m + 1 < binade
    · rw [Nat.add_assoc, units_normal hs]
      ring
    · have he : (q + 1) * binade + m + 1 = (q + 1 + 1) * binade + 0 := by
        have : m + 1 = binade := by omega
        linarith
      have hb : binade = m + 1 := by omega
      rw [he, units_normal (by decide), Nat.pow_succ, hb]
      ring

theorem units_strictMono : StrictMono units :=
  strictMono_nat_of_lt_succ fun rank => by
    rw [units_succ]
    exact Nat.lt_add_of_pos_right (step_pos rank)

theorem units_pos {rank : Nat} (h : 0 < rank) : 0 < units rank :=
  Nat.lt_of_le_of_lt (Nat.zero_le _) (units_strictMono h)

theorem units_lt {rank : Nat} (h : rank < infiniteRank) : units rank < binade * 2 ^ 2046 := by
  have he : infiniteRank = (2046 + 1) * binade + 0 := by decide
  have hi := units_strictMono h
  rwa [he, units_normal (by decide), Nat.add_zero] at hi

/-- A magnitude is small against the distance of its two neighbours: by less than one part in
`10 ^ 16` of half the magnitude they could not be told apart. -/
theorem units_lt_spacing (rank : Nat) :
    2 * units (rank + 1) < 10 ^ 16 * (step rank + step (rank + 1)) := by
  have hb : binade = 4503599627370496 := rfl
  obtain h | ⟨q, m, hm, he⟩ := rank_cases (rank + 1)
  · rw [units_of_lt h, step_of_lt h, step_of_lt (by omega : rank < binade)]
    omega
  · have hp : 0 < 2 ^ q := Nat.two_pow_pos q
    by_cases hz : m = 0
    · rw [he, units_normal hm, step_normal hm, hz, Nat.add_zero]
      nlinarith [step_pos rank]
    · have hr : rank = (q + 1) * binade + (m - 1) := by omega
      rw [he, units_normal hm, step_normal hm, hr, step_normal (by omega : m - 1 < binade)]
      nlinarith

end Conformance
