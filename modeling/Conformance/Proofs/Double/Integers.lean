import Conformance.Proofs.Double.Shortest
import Conformance.Proofs.Double.WholeNumbers

/-!
# Integers that are numbers

Every integer up to `2 ^ 53` is a binary64 number of its own, so a conversion
neither rounds it nor takes it for another. Below that limit the neighbours of
such a number are at most one apart, and no other whole number is nearer to it
than halfway to a neighbour. Its shortest decimal is therefore the integer itself
without its trailing zeros: the search for digits meets the integer on the grid
of whole numbers, and what it meets before, on a coarser grid, is whole too.
-/
namespace Conformance

section
variable {m n rank : Nat}

theorem exists_scaled (h0 : 0 < n) (h : n ≤ 2 ^ 53) :
    ∃ k ≤ 52, binade ≤ n * 2 ^ k ∧ n * 2 ^ k ≤ 2 * binade := by
  have hb : 2 ^ 52 = binade := rfl
  by_cases hn : n < 2 ^ 52
  · have hne : n ≠ 0 := Nat.ne_of_gt h0
    have hlog : n.log2 < 52 := (Nat.log2_lt hne).2 hn
    have hk : n.log2 + (52 - n.log2) = 52 := by omega
    have hk' : n.log2 + 1 + (52 - n.log2) = 53 := by omega
    refine ⟨52 - n.log2, Nat.sub_le _ _, ?_, ?_⟩
    · calc binade = 2 ^ n.log2 * 2 ^ (52 - n.log2) := by rw [← Nat.pow_add, hk, hb]
        _ ≤ n * 2 ^ (52 - n.log2) := Nat.mul_le_mul_right _ (Nat.log2_self_le hne)
    · calc n * 2 ^ (52 - n.log2) ≤ 2 ^ (n.log2 + 1) * 2 ^ (52 - n.log2) :=
            Nat.mul_le_mul_right _ Nat.lt_log2_self.le
        _ = 2 * binade := by rw [← Nat.pow_add, hk']; rfl
  · exact ⟨0, Nat.zero_le _, by omega, by omega⟩

theorem units_rankOfNat (h : n ≤ 2 ^ 53) : units (rankOfNat n) = n * unitsOfOne := by
  obtain ⟨e, he, hone⟩ : ∃ e, 52 ≤ e ∧ unitsOfOne = 2 ^ e :=
    ⟨1074, by decide, by decide +kernel⟩
  obtain ⟨rank, hr⟩ : ∃ rank, units rank = n * unitsOfOne := by
    by_cases h0 : n = 0
    · exact ⟨0, by rw [h0, Nat.zero_mul, units_of_lt (by decide)]⟩
    · obtain ⟨k, hk, hlow, hhigh⟩ := exists_scaled (Nat.pos_of_ne_zero h0) h
      have hke : k + (e - k) = e := by omega
      refine ⟨n * 2 ^ k + (e - k) * binade, ?_⟩
      rw [units_add_mul hhigh (.inr hlow), Nat.mul_assoc, ← Nat.pow_add, hke, hone]
  have hn := @nearestRank_units 1 rank Nat.one_pos
  rw [Nat.mul_one, hr] at hn
  rw [rankOfNat, hn, hr]

theorem rankOfNat_lt (h : m < n) (hn : n ≤ 2 ^ 53) : rankOfNat m < rankOfNat n := by
  rw [← units_strictMono.lt_iff_lt, units_rankOfNat hn, units_rankOfNat (h.le.trans hn)]
  exact Nat.mul_lt_mul_of_pos_right h unitsOfOne_pos

theorem rankOfNat_inj (hm : m ≤ 2 ^ 53) (hn : n ≤ 2 ^ 53) :
    rankOfNat m = rankOfNat n ↔ m = n := by
  constructor
  · intro h
    have hu := congrArg units h
    rw [units_rankOfNat hm, units_rankOfNat hn] at hu
    exact Nat.eq_of_mul_eq_mul_right unitsOfOne_pos hu
  · intro h
    rw [h]

theorem rankOfNat_zero : rankOfNat 0 = 0 := by
  simp [rankOfNat, nearestRank, roundQuotient]

theorem rankOfNat_eq_zero_iff (hn : n ≤ 2 ^ 53) : rankOfNat n = 0 ↔ n = 0 := by
  rw [← rankOfNat_inj hn (Nat.zero_le _), rankOfNat_zero]

theorem rankOfNat_finite (hn : n ≤ 2 ^ 53) : rankOfNat n < infiniteRank :=
  (rankOfNat_le (hn.trans_lt (by decide : 2 ^ 53 < 2 ^ 54))).trans_lt (by decide)

def Finite.ofInt (n : Int) (h : n.natAbs ≤ 2 ^ 53) : Finite :=
  ⟨decide (n < 0), rankOfNat n.natAbs, rankOfNat_finite h⟩

theorem Double.ofInt_eq {n : Int} (h : n.natAbs ≤ 2 ^ 53) :
    Double.ofInt n = .finite (Finite.ofInt n h) := dif_pos (rankOfNat_finite h)

theorem Double.equals_ofInt_iff {m n : Int} (hm : m.natAbs ≤ 2 ^ 53) (hn : n.natAbs ≤ 2 ^ 53) :
    (Double.ofInt m).equals (Double.ofInt n) = true ↔ m = n := by
  rw [ofInt_eq hm, ofInt_eq hn]
  simp only [Double.equals, Finite.equals, Finite.ofInt, Bool.and_eq_true, Bool.or_eq_true,
    beq_iff_eq, rankOfNat_inj hm hn, rankOfNat_eq_zero_iff hm, decide_eq_decide]
  omega

-- The next integer is not a number of its own.
example : (Double.ofInt 9007199254740993).equals (.ofInt 9007199254740992) = true := by
  decide +kernel

theorem findSome?_range {β : Type} {f : Nat → Option β} {i n : Nat} (hi : i < n)
    (h : f i ≠ none) : ∃ j ≤ i, ∃ b, f j = some b ∧ (List.range n).findSome? f = some b := by
  induction n with
  | zero => exact absurd hi (Nat.not_lt_zero i)
  | succ n ih =>
    rw [List.range_succ, List.findSome?_append]
    by_cases hin : i < n
    · obtain ⟨j, hj, b, hb, hf⟩ := ih hin
      exact ⟨j, hj, b, hb, by rw [hf]; rfl⟩
    · obtain rfl : i = n := by omega
      cases hf : (List.range i).findSome? f with
      | none =>
        obtain ⟨b, hb⟩ := Option.ne_none_iff_exists'.1 h
        exact ⟨i, Nat.le_refl i, b, hb, by simp [hb]⟩
      | some b =>
        obtain ⟨j, hj, hb⟩ := List.exists_of_findSome?_eq_some hf
        exact ⟨j, (List.mem_range.1 hj).le, b, hb, rfl⟩

/-- The search does not go on to finer grids than one that has a neighbour. -/
theorem shortest_of_neighbour {tie : Tie} {i : Nat} (hi : i < 17)
    (h : neighbour tie rank (leadingExponent rank - i) ≠ none) :
    ∃ j ≤ i, ∃ digits, identifies rank ⟨digits, leadingExponent rank - j⟩ = true ∧
      shortest tie rank = stripZeros digits (leadingExponent rank - j) := by
  obtain ⟨j, hj, d, hd, hf⟩ :=
    findSome?_range (f := fun (n : Nat) => neighbour tie rank (leadingExponent rank - n)) hi h
  have hs : shortest tie rank = stripZeros d.digits d.exponent := by
    simp only [shortest, hf]
  have he : d.exponent = leadingExponent rank - j := by
    obtain rfl | rfl := eq_of_neighbour hd <;> rfl
  refine ⟨j, hj, d.digits, ?_, ?_⟩
  · rw [← he]
    exact identifies_of_neighbour hd
  · rw [← he]
    exact hs

theorem between_of_identifies {d : Decimal} (h : identifies rank d = true) :
    (units (rank - 1) + units rank) * 10 ^ (-d.exponent).toNat ≤
        2 * (d.digits * 10 ^ d.exponent.toNat * unitsOfOne) ∧
      2 * (d.digits * 10 ^ d.exponent.toNat * unitsOfOne) ≤
        (units rank + units (rank + 1)) * 10 ^ (-d.exponent).toNat := by
  simp only [identifies, Nat.pow_eq] at h
  split_ifs at h
  · simpa only [Bool.and_eq_true, decide_eq_true_eq] using h
  · simp only [Bool.and_eq_true, decide_eq_true_eq] at h
    exact ⟨h.1.le, h.2.le⟩

theorem rank_pos (h0 : 0 < n) (hu : units rank = n * unitsOfOne) : 0 < rank := by
  apply Nat.pos_of_ne_zero
  rintro rfl
  rw [units_of_lt (by decide)] at hu
  exact Nat.ne_of_lt (Nat.mul_pos h0 unitsOfOne_pos) hu

theorem leadingExponent_of_integer (h0 : 0 < n) (h : n < 10 ^ 16)
    (hu : units rank = n * unitsOfOne) :
    0 ≤ leadingExponent rank ∧ leadingExponent rank < 16 := by
  obtain ⟨l, c, -, hl, hlow, hhigh⟩ := leadingExponent_cases (rank_pos h0 hu)
  rw [hu, Nat.mul_right_comm] at hlow hhigh
  have hlow := Nat.le_of_mul_le_mul_right hlow unitsOfOne_pos
  have hhigh := Nat.lt_of_mul_lt_mul_right hhigh
  have hl16 : 10 ^ l < 10 ^ (16 + c) := by
    rw [Nat.pow_add]
    exact hlow.trans_lt (Nat.mul_lt_mul_of_pos_right h (Nat.pow_pos (by decide)))
  have hcl : 10 ^ c < 10 ^ (l + 1) := (Nat.le_mul_of_pos_left _ h0).trans_lt hhigh
  have hl16 := (Nat.pow_lt_pow_iff_right (by decide : 1 < 10)).1 hl16
  have hcl := (Nat.pow_lt_pow_iff_right (by decide : 1 < 10)).1 hcl
  omega

theorem neighbour_of_integer {tie : Tie} (h0 : 0 < n) (hu : units rank = n * unitsOfOne) :
    neighbour tie rank 0 ≠ none := by
  have hline : lineBelow rank 0 = n := by
    rw [lineBelow, hu]
    simp [Nat.mul_div_cancel _ unitsOfOne_pos]
  have hlow : units (rank - 1) < units rank :=
    units_strictMono (Nat.sub_lt (rank_pos h0 hu) Nat.one_pos)
  have hhigh : units rank < units (rank + 1) := units_strictMono (Nat.lt_succ_self rank)
  have hi : identifies rank ⟨n, 0⟩ = true := by
    apply identifies_of_between
    · simp only [Int.toNat_zero, Int.neg_zero, Nat.pow_zero, Nat.mul_one]
      omega
    · simp only [Int.toNat_zero, Int.neg_zero, Nat.pow_zero, Nat.mul_one]
      omega
  intro hn
  have hb := (not_identifies_of_neighbour hn).1
  rw [hline, hi] at hb
  cases hb

theorem eq_of_between {x : Nat} (h0 : 0 < n) (hn : n < 2 ^ 53)
    (h : units (rankOfNat n - 1) + units (rankOfNat n) ≤ 2 * (x * unitsOfOne) ∧
      2 * (x * unitsOfOne) ≤ units (rankOfNat n) + units (rankOfNat n + 1)) : x = n := by
  obtain ⟨m, rfl⟩ := Nat.exists_eq_add_one_of_ne_zero (Nat.ne_of_gt h0)
  have hprev : m * unitsOfOne ≤ units (rankOfNat (m + 1) - 1) := by
    rw [← units_rankOfNat (by omega)]
    exact units_strictMono.monotone (Nat.le_sub_one_of_lt (rankOfNat_lt (Nat.lt_succ_self m) hn.le))
  have hnext : units (rankOfNat (m + 1) + 1) ≤ (m + 2) * unitsOfOne := by
    rw [← units_rankOfNat (by omega)]
    exact units_strictMono.monotone (rankOfNat_lt (Nat.lt_succ_self (m + 1)) hn)
  rw [units_rankOfNat hn.le] at h
  have hlow : (2 * m + 1) * unitsOfOne ≤ 2 * x * unitsOfOne := by linarith
  have hhigh : 2 * x * unitsOfOne ≤ (2 * m + 3) * unitsOfOne := by linarith
  have hlow := Nat.le_of_mul_le_mul_right hlow unitsOfOne_pos
  have hhigh := Nat.le_of_mul_le_mul_right hhigh unitsOfOne_pos
  omega

theorem shortest_of_integer (tie : Tie) (h0 : 0 < n) (hn : n < 2 ^ 53) :
    0 ≤ (shortest tie (rankOfNat n)).exponent ∧
      (shortest tie (rankOfNat n)).digits * 10 ^ (shortest tie (rankOfNat n)).exponent.toNat =
        n := by
  have hu := units_rankOfNat hn.le
  obtain ⟨hlow, hhigh⟩ := leadingExponent_of_integer h0 (hn.trans (by decide)) hu
  obtain ⟨i, hi⟩ := Int.eq_ofNat_of_zero_le hlow
  have hz : leadingExponent (rankOfNat n) - i = 0 := by omega
  obtain ⟨j, hj, digits, hid, hs⟩ := @shortest_of_neighbour _ tie i (by omega)
    (by rw [hz]; exact neighbour_of_integer h0 hu)
  obtain ⟨k, hk⟩ : ∃ k : Nat, leadingExponent (rankOfNat n) - j = k := ⟨i - j, by omega⟩
  rw [hk] at hid hs
  have hx : digits * 10 ^ k = n := by
    apply eq_of_between h0 hn
    simpa only [Int.toNat_natCast, Int.toNat_neg_natCast, Nat.pow_zero, Nat.mul_one] using
      between_of_identifies hid
  have hd : 0 < digits := by
    apply Nat.pos_of_ne_zero
    rintro rfl
    rw [Nat.zero_mul] at hx
    exact Nat.ne_of_lt h0 hx
  obtain ⟨d, l, hz, -, rfl⟩ := stripZeros_eq digits k hd
  rw [hs, hz]
  refine ⟨Int.add_nonneg (Int.natCast_nonneg k) (Int.natCast_nonneg l), ?_⟩
  have hkl : ((k : Int) + l).toNat = l + k := by omega
  rw [hkl, Nat.pow_add, ← Nat.mul_assoc, hx]

end

end Conformance
