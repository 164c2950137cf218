import Conformance.Double.Rounding
import Conformance.Proofs.Double.Units
import Mathlib.Tactic.Positivity

/-!
# Where rounding leads

`nearestRank` rounds a quotient to a significand of at most 53 bits and a scale.
The magnitude of the rank it gives is that significand times the scale, although
the significand may have been rounded up into the next binade. So a quotient is
not rounded past a magnitude that it does not reach half of the way to, rounding
keeps the order between quotients and magnitudes, and the error is one part in
`2 ^ 53` at most where no magnitude is subnormal.
-/
namespace Conformance

section
variable {num den rank : Nat}

def scale (num den : Nat) : Nat := (num / den).log2 - 52

def significand (num den : Nat) : Nat := roundQuotient num (den * 2 ^ scale num den)

theorem nearestRank_eq (num den : Nat) :
    nearestRank num den = significand num den + scale num den * binade := rfl

theorem roundQuotient_le (num den : Nat) : roundQuotient num den ≤ num / den + 1 := by
  unfold roundQuotient
  dsimp only
  split_ifs
  · omega
  · omega
  · omega

theorem roundQuotient_near (num : Nat) (hden : 0 < den) :
    2 * (roundQuotient num den * den) ≤ 2 * num + den ∧
      2 * num ≤ 2 * (roundQuotient num den * den) + den := by
  have hnum := Nat.div_add_mod num den
  have hrest := Nat.mod_lt num hden
  rw [Nat.mul_comm] at hnum
  have hnext : (num / den + 1) * den = num / den * den + den := Nat.succ_mul _ _
  unfold roundQuotient
  dsimp only
  split_ifs with hlow hhigh
  · omega
  · omega
  · rcases Nat.mod_two_eq_zero_or_one (num / den) with h | h
    · rw [h, Nat.add_zero]
      omega
    · rw [h]
      omega

theorem lt_scale (hden : 0 < den) : num < 2 ^ 53 * (den * 2 ^ scale num den) := by
  have hlog : (num / den).log2 < scale num den + 53 := by
    unfold scale
    omega
  have hlt : num / den < 2 ^ (scale num den + 53) :=
    Nat.lt_log2_self.trans_le (Nat.pow_le_pow_right (by decide) hlog)
  calc num < 2 ^ (scale num den + 53) * den := (Nat.div_lt_iff_lt_mul hden).1 hlt
    _ = 2 ^ 53 * (den * 2 ^ scale num den) := by rw [Nat.pow_add]; ring

theorem scale_le (hq : binade * den ≤ num) (hden : 0 < den) :
    binade * (den * 2 ^ scale num den) ≤ num := by
  have hb : binade ≤ num / den := (Nat.le_div_iff_mul_le hden).2 hq
  have hne : num / den ≠ 0 := Nat.ne_of_gt (Nat.lt_of_lt_of_le (by decide) hb)
  have hlog : 52 ≤ (num / den).log2 := (Nat.le_log2 hne).2 hb
  have hs : (num / den).log2 = 52 + scale num den := by
    unfold scale
    omega
  have hle : 2 ^ (52 + scale num den) ≤ num / den := hs ▸ Nat.log2_self_le hne
  calc binade * (den * 2 ^ scale num den) = 2 ^ (52 + scale num den) * den := by
        rw [Nat.pow_add, binade, Nat.pow_eq]; ring
    _ ≤ num := (Nat.le_div_iff_mul_le hden).1 hle

theorem scale_eq_zero (hq : num < binade * den) (hden : 0 < den) : scale num den = 0 := by
  have hb : num / den < 2 ^ 52 := (Nat.div_lt_iff_lt_mul hden).2 hq
  have hlog : (num / den).log2 < 53 := by
    by_cases h0 : num / den = 0
    · rw [h0]
      decide
    · exact (Nat.log2_lt h0).2 (hb.trans (by decide))
  unfold scale
  omega

theorem significand_le (hden : 0 < den) : significand num den ≤ 2 * binade := by
  have hd : 0 < den * 2 ^ scale num den := Nat.mul_pos hden (Nat.two_pow_pos _)
  have hq : num / (den * 2 ^ scale num den) < 2 ^ 53 :=
    (Nat.div_lt_iff_lt_mul hd).2 (lt_scale hden)
  have hb : 2 ^ 53 = 2 * binade := by decide
  have := roundQuotient_le num (den * 2 ^ scale num den)
  unfold significand
  omega

theorem le_significand (hq : binade * den ≤ num) (hden : 0 < den) :
    binade ≤ significand num den := by
  have hd : 0 < den * 2 ^ scale num den := Nat.mul_pos hden (Nat.two_pow_pos _)
  have hle := (Nat.le_div_iff_mul_le hd).2 (scale_le hq hden)
  refine hle.trans ?_
  unfold significand roundQuotient
  dsimp only
  split_ifs
  · exact Nat.le_refl _
  · exact Nat.le_succ _
  · exact Nat.le_add_right _ _

theorem units_add_mul {n s : Nat} (hn : n ≤ 2 * binade) (hs : s = 0 ∨ binade ≤ n) :
    units (n + s * binade) = n * 2 ^ s := by
  by_cases hsub : n < binade
  · obtain rfl : s = 0 := hs.resolve_right (Nat.not_le.2 hsub)
    rw [Nat.zero_mul, Nat.add_zero, units_of_lt hsub, Nat.pow_zero, Nat.mul_one]
  · obtain ⟨m, rfl⟩ := Nat.exists_eq_add_of_le (Nat.le_of_not_lt hsub)
    by_cases hm : m < binade
    · have he : binade + m + s * binade = (s + 1) * binade + m := by ring
      rw [he, units_normal hm]
    · obtain rfl : m = binade := by omega
      have he : binade + binade + s * binade = (s + 1 + 1) * binade + 0 := by ring
      rw [he, units_normal (by decide), Nat.pow_succ]
      ring

theorem step_add_mul {n s : Nat} (hn : n < 2 * binade) (hs : s = 0 ∨ binade ≤ n) :
    step (n + s * binade) = 2 ^ s := by
  by_cases hsub : n < binade
  · obtain rfl : s = 0 := hs.resolve_right (Nat.not_le.2 hsub)
    rw [Nat.zero_mul, Nat.add_zero, step_of_lt hsub, Nat.pow_zero]
  · obtain ⟨m, rfl⟩ := Nat.exists_eq_add_of_le (Nat.le_of_not_lt hsub)
    have he : binade + m + s * binade = (s + 1) * binade + m := by ring
    rw [he, step_normal (by omega)]

theorem le_step_add_mul {n s : Nat} (hs : s = 0 ∨ binade ≤ n) : 2 ^ s ≤ step (n + s * binade) := by
  rcases hs with rfl | hs
  · exact step_pos _
  · refine Nat.pow_le_pow_right (by decide) (Nat.le_sub_of_add_le ?_)
    refine (Nat.le_div_iff_mul_le (by decide)).2 ?_
    rw [Nat.succ_mul]
    omega

theorem scale_zero_or (hden : 0 < den) :
    scale num den = 0 ∨ binade ≤ significand num den ∧
      binade * (den * 2 ^ scale num den) ≤ num := by
  by_cases hq : binade * den ≤ num
  · exact .inr ⟨le_significand hq hden, scale_le hq hden⟩
  · exact .inl (scale_eq_zero (Nat.lt_of_not_le hq) hden)

theorem units_nearestRank (hden : 0 < den) :
    units (nearestRank num den) = significand num den * 2 ^ scale num den :=
  units_add_mul (significand_le hden) ((scale_zero_or hden).imp_right And.left)

/-- What is rounded differs from its magnitude by half of the scale at most. -/
theorem nearestRank_near (num : Nat) (hden : 0 < den) :
    2 * (units (nearestRank num den) * den) ≤ 2 * num + den * 2 ^ scale num den ∧
      2 * num ≤ 2 * (units (nearestRank num den) * den) + den * 2 ^ scale num den := by
  have h := roundQuotient_near num (Nat.mul_pos hden (Nat.two_pow_pos (scale num den)))
  have he : significand num den * (den * 2 ^ scale num den) =
      units (nearestRank num den) * den := by
    rw [units_nearestRank hden]
    ring
  rw [← he]
  exact h

theorem nearestRank_le_of_lt (hden : 0 < den)
    (h : 2 * num < (units rank + units (rank + 1)) * den) : nearestRank num den ≤ rank := by
  by_contra hlt
  obtain ⟨r, hr⟩ := Nat.exists_eq_add_one_of_ne_zero (Nat.ne_zero_of_lt (Nat.lt_of_not_le hlt))
  have hmono : (units rank + units (rank + 1)) * den ≤ (units r + units (r + 1)) * den :=
    Nat.mul_le_mul_right _ (Nat.add_le_add (units_strictMono.monotone (by omega))
      (units_strictMono.monotone (by omega)))
  refine absurd (h.trans_le hmono) (Nat.not_lt.2 ?_)
  have hu : units (r + 1) = significand num den * 2 ^ scale num den := by
    rw [← units_nearestRank hden, hr]
  have hnear := (nearestRank_near num hden).1
  rw [hr] at hnear
  have hrank := nearestRank_eq num den
  have hle := @significand_le num den hden
  have hcases := @scale_zero_or num den hden
  rw [hr] at hrank
  generalize significand num den = n at *
  generalize scale num den = s at *
  by_cases hn : n = binade ∧ s ≠ 0
  · -- the significand is the least of its binade, so nothing was rounded up
    obtain ⟨hn, hs⟩ := hn
    have hnum := (hcases.resolve_left hs).2
    have hlow := units_strictMono (Nat.lt_add_one r)
    calc (units r + units (r + 1)) * den ≤ (units (r + 1) + units (r + 1)) * den :=
          Nat.mul_le_mul_right _ (by omega)
      _ = 2 * (binade * (den * 2 ^ s)) := by rw [hu, hn]; ring
      _ ≤ 2 * num := Nat.mul_le_mul_left 2 hnum
  · have hpos : 0 < n := by
      rcases hcases with rfl | h
      · omega
      · exact Nat.lt_of_lt_of_le (by decide) h.1
    have he : r = n - 1 + s * binade := by omega
    have hstep : step r = 2 ^ s := by
      rw [he]
      apply step_add_mul
      · omega
      · omega
    have hsucc := units_succ r
    rw [hstep] at hsucc
    have hsum : (units r + units (r + 1)) * den + den * 2 ^ s = 2 * (units (r + 1) * den) := by
      rw [hsucc]
      ring
    omega

theorem nearestRank_le (hden : 0 < den) (h : num ≤ units rank * den) :
    nearestRank num den ≤ rank := by
  apply nearestRank_le_of_lt hden
  have hlt := Nat.mul_lt_mul_of_pos_right (units_strictMono (Nat.lt_add_one rank)) hden
  rw [Nat.add_mul]
  omega

theorem le_nearestRank (hden : 0 < den) (h : units rank * den ≤ num) :
    rank ≤ nearestRank num den := by
  by_contra hlt
  have hmono : units (nearestRank num den + 1) * den ≤ units rank * den :=
    Nat.mul_le_mul_right _ (units_strictMono.monotone (Nat.lt_of_not_le hlt))
  have hstep : 2 ^ scale num den ≤ step (nearestRank num den) :=
    le_step_add_mul ((scale_zero_or hden).imp_right And.left)
  have hd : 0 < den * 2 ^ scale num den := Nat.mul_pos hden (Nat.two_pow_pos _)
  have hnear := (nearestRank_near num hden).2
  have hnext : units (nearestRank num den) * den + den * 2 ^ scale num den ≤
      units (nearestRank num den + 1) * den := by
    rw [units_succ, Nat.add_mul, Nat.mul_comm den]
    exact Nat.add_le_add_left (Nat.mul_le_mul_right den hstep) _
  omega

theorem nearestRank_units (hden : 0 < den) : nearestRank (units rank * den) den = rank :=
  Nat.le_antisymm (nearestRank_le hden (Nat.le_refl _)) (le_nearestRank hden (Nat.le_refl _))

/-- Above the subnormal magnitudes rounding up adds one part in `2 ^ 53` at most. -/
theorem units_nearestRank_le (hden : 0 < den) (hq : binade * den ≤ num) :
    2 ^ 53 * (units (nearestRank num den) * den) ≤ (2 ^ 53 + 1) * num := by
  have hs := scale_le hq hden
  have hnear := (nearestRank_near num hden).1
  have hb : 2 ^ 53 = 2 * binade := by decide
  calc 2 ^ 53 * (units (nearestRank num den) * den)
      = binade * (2 * (units (nearestRank num den) * den)) := by rw [hb]; ring
    _ ≤ binade * (2 * num + den * 2 ^ scale num den) := Nat.mul_le_mul_left _ hnear
    _ = 2 ^ 53 * num + binade * (den * 2 ^ scale num den) := by rw [hb]; ring
    _ ≤ 2 ^ 53 * num + num := Nat.add_le_add_left hs _
    _ = (2 ^ 53 + 1) * num := by ring

end

end Conformance
