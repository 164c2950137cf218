import Conformance.Proofs.Double.Rounding
import Conformance.Proofs.Double.WholeNumbers
import Conformance.Proofs.Json.WrittenNumber

/-!
# Every written number is read

The reader rounds the digits of a number, rounds the power of ten, and rounds
their product or quotient, and each time the number may grow. None the less what
is read for a finite number is finite. A quotient by a power of ten is never
larger than the significand. A product is larger than the exact value by two
parts in `2 ^ 53`, and the exact value reaches at most half of the way to the
next magnitude; below the last two magnitudes this leaves room, and for these two
the reader's arithmetic is carried out.
-/
namespace Conformance

variable {rank : Nat}

theorem units_one : units (1023 * binade) = unitsOfOne := by decide +kernel

theorem unitsOfOne_le_units_rankOfNat {n : Nat} (hn : 0 < n) :
    unitsOfOne ≤ units (rankOfNat n) := by
  rw [← units_one]
  apply units_strictMono.monotone
  apply le_nearestRank Nat.one_pos
  rw [units_one, Nat.mul_one]
  exact Nat.le_mul_of_pos_left _ hn

theorem units_rankOfNat_le {n : Nat} (hn : 0 < n) :
    2 ^ 53 * units (rankOfNat n) ≤ (2 ^ 53 + 1) * (n * unitsOfOne) := by
  have hb : binade ≤ unitsOfOne := by decide +kernel
  have h := @units_nearestRank_le (n * unitsOfOne) 1 Nat.one_pos
    (by rw [Nat.mul_one]; exact hb.trans (Nat.le_mul_of_pos_left _ hn))
  rwa [Nat.mul_one] at h

/-- The shortest decimal of a magnitude reaches at most half of the way to the next one. -/
theorem shortest_le {tie : Tie} (hr : 0 < rank) (he : 0 ≤ (shortest tie rank).exponent) :
    2 * ((shortest tie rank).digits * 10 ^ (shortest tie rank).exponent.toNat * unitsOfOne) ≤
      units rank + units (rank + 1) := by
  obtain ⟨n, digits, -, h0, -, hid, hs⟩ := shortest_eq tie hr
  obtain ⟨d, j, hz, -, rfl⟩ := stripZeros_eq digits (leadingExponent rank - n) h0
  generalize leadingExponent rank - n = k at *
  rw [hs, hz] at he ⊢
  dsimp only at he ⊢
  have hp : 0 < 10 ^ (-k).toNat := Nat.pow_pos (by decide)
  have hshift := pow_shift (a := (k + j).toNat) (b := j) (k := k) (by omega)
  have hhigh : 2 * (d * 10 ^ j * 10 ^ k.toNat * unitsOfOne) ≤
      (units rank + units (rank + 1)) * 10 ^ (-k).toNat := by
    simp only [identifies, Nat.pow_eq] at hid
    split_ifs at hid
    · simp only [Bool.and_eq_true, decide_eq_true_eq] at hid
      exact hid.2
    · simp only [Bool.and_eq_true, decide_eq_true_eq] at hid
      exact hid.2.le
  refine Nat.le_of_mul_le_mul_right ?_ hp
  calc 2 * (d * 10 ^ (k + j).toNat * unitsOfOne) * 10 ^ (-k).toNat
      = 2 * (d * (10 ^ (k + j).toNat * 10 ^ (-k).toNat) * unitsOfOne) := by ring
    _ = 2 * (d * 10 ^ j * 10 ^ k.toNat * unitsOfOne) := by rw [hshift]; ring
    _ ≤ (units rank + units (rank + 1)) * 10 ^ (-k).toNat := hhigh

theorem exponent_lt {digits e : Nat} (hd : 0 < digits) (hi : rank < infiniteRank)
    (h : 2 * (digits * 10 ^ e * unitsOfOne) ≤ units rank + units (rank + 1)) : e < 309 := by
  obtain ⟨n, hn, hlarge⟩ : ∃ n, 309 = n ∧ units infiniteRank < 10 ^ n * unitsOfOne :=
    ⟨309, rfl, by decide +kernel⟩
  have hrank : units rank ≤ units infiniteRank := units_strictMono.monotone hi.le
  have hnext : units (rank + 1) ≤ units infiniteRank := units_strictMono.monotone hi
  have hlt : 10 ^ e * unitsOfOne < 10 ^ n * unitsOfOne :=
    calc 10 ^ e * unitsOfOne ≤ digits * 10 ^ e * unitsOfOne :=
          Nat.mul_le_mul_right _ (Nat.le_mul_of_pos_left _ hd)
      _ ≤ units infiniteRank := by omega
      _ < 10 ^ n * unitsOfOne := hlarge
  rw [hn]
  exact (Nat.pow_lt_pow_iff_right (by decide)).1 (Nat.lt_of_mul_lt_mul_right hlt)

namespace Finite

theorem quotientRank_le {a b : Nat} (h : unitsOfOne ≤ units b) : quotientRank a b ≤ a :=
  nearestRank_le (unitsOfOne_pos.trans_le h) (Nat.mul_le_mul_left _ h)

theorem unitsOfOne_le_units_powerRank (e : Nat) : unitsOfOne ≤ units (powerRank e) :=
  unitsOfOne_le_units_rankOfNat (Nat.pow_pos (by decide))

theorem dividedRank_le (rank e : Nat) : dividedRank rank e ≤ rank := by
  fun_induction dividedRank rank e with
  | case1 rank e h => exact quotientRank_le (unitsOfOne_le_units_powerRank e)
  | case2 e h => exact Nat.le_refl _
  | case3 rank e h h0 ih =>
    exact ih.trans (quotientRank_le (unitsOfOne_le_units_powerRank 308))

/-- The product of a rounded significand and a rounded power of ten is finite where the exact value
leaves room for the rounding. -/
theorem productRank_lt {digits e : Nat} (hd : 0 < digits) (hi : rank ≤ infiniteRank - 3)
    (h : 2 * (digits * 10 ^ e * unitsOfOne) ≤ units rank + units (rank + 1)) :
    productRank (rankOfNat digits) (powerRank e) < infiniteRank := by
  have hthree : 3 ≤ infiniteRank := by decide
  have hroom : (2 ^ 53 + 1) ^ 2 * (units (infiniteRank - 3) + units (infiniteRank - 2)) <
      2 ^ 106 * (units (infiniteRank - 1) + units infiniteRank) := by decide +kernel
  have hmono : units rank + units (rank + 1) ≤
      units (infiniteRank - 3) + units (infiniteRank - 2) :=
    Nat.add_le_add (units_strictMono.monotone hi) (units_strictMono.monotone (by omega))
  have ha := units_rankOfNat_le hd
  have hb : 2 ^ 53 * units (powerRank e) ≤ (2 ^ 53 + 1) * (10 ^ e * unitsOfOne) :=
    units_rankOfNat_le (Nat.pow_pos (by decide))
  have hlast : infiniteRank - 1 + 1 = infiniteRank := by decide
  refine Nat.lt_of_le_of_lt (nearestRank_le_of_lt unitsOfOne_pos ?_)
    (by decide : infiniteRank - 1 < infiniteRank)
  rw [hlast]
  refine Nat.lt_of_mul_lt_mul_left (a := 2 ^ 106) ?_
  calc 2 ^ 106 * (2 * (units (rankOfNat digits) * units (powerRank e)))
      = 2 * (2 ^ 53 * units (rankOfNat digits) * (2 ^ 53 * units (powerRank e))) := by ring
    _ ≤ 2 * ((2 ^ 53 + 1) * (digits * unitsOfOne) * ((2 ^ 53 + 1) * (10 ^ e * unitsOfOne))) :=
        Nat.mul_le_mul_left 2 (Nat.mul_le_mul ha hb)
    _ = (2 ^ 53 + 1) ^ 2 * (2 * (digits * 10 ^ e * unitsOfOne)) * unitsOfOne := by ring
    _ ≤ (2 ^ 53 + 1) ^ 2 * (units (infiniteRank - 3) + units (infiniteRank - 2)) * unitsOfOne :=
        Nat.mul_le_mul_right _ (Nat.mul_le_mul_left _ (h.trans hmono))
    _ < 2 ^ 106 * (units (infiniteRank - 1) + units infiniteRank) * unitsOfOne :=
        Nat.mul_lt_mul_of_pos_right hroom unitsOfOne_pos
    _ = 2 ^ 106 * ((units (infiniteRank - 1) + units infiniteRank) * unitsOfOne) := by ring

theorem shortest_largest :
    shortest .toEven (infiniteRank - 1) = ⟨17976931348623157, 292⟩ := by
  have h : (List.range 17).findSome? (fun (n : Nat) =>
      neighbour .toEven (infiniteRank - 1) (leadingExponent (infiniteRank - 1) - n)) =
      some ⟨17976931348623157, 292⟩ := by
    decide +kernel
  simp only [shortest, h]
  rw [stripZeros, dif_neg (by decide)]

theorem shortest_secondLargest :
    shortest .toEven (infiniteRank - 2) = ⟨17976931348623155, 292⟩ := by
  have h : (List.range 17).findSome? (fun (n : Nat) =>
      neighbour .toEven (infiniteRank - 2) (leadingExponent (infiniteRank - 2) - n)) =
      some ⟨17976931348623155, 292⟩ := by
    decide +kernel
  simp only [shortest, h]
  rw [stripZeros, dif_neg (by decide)]

theorem productRank_lt_of_large (hi : rank < infiniteRank) (hl : infiniteRank - 3 < rank) :
    productRank (rankOfNat (shortest .toEven rank).digits)
      (powerRank (shortest .toEven rank).exponent.natAbs) < infiniteRank := by
  have hr : rank = infiniteRank - 1 ∨ rank = infiniteRank - 2 := by omega
  rcases hr with rfl | rfl
  · rw [shortest_largest]
    decide +kernel
  · rw [shortest_secondLargest]
    decide +kernel

theorem exists_ofRank? (negative : Bool) (hr : rank < infiniteRank) :
    ∃ y, ofRank? negative rank = some y := ⟨_, dif_pos hr⟩

theorem exists_ofParts?_of_neg (negative : Bool) {digits : Nat} {e : Int}
    (hd : digits ≤ 10 ^ 17) (he : e < 0) : ∃ y, ofParts? negative digits e = some y := by
  have hlt : digits < 2 ^ 64 := hd.trans_lt (by decide)
  have hr : rankOfNat digits < infiniteRank := (rankOfNat_le hlt).trans_lt (by decide)
  rw [ofParts?, if_pos he]
  exact exists_ofRank? negative ((dividedRank_le _ _).trans_lt hr)

theorem exists_ofParts?_shortest (negative : Bool) (hr : 0 < rank) (hi : rank < infiniteRank)
    (he : 0 ≤ (shortest .toEven rank).exponent) :
    ∃ y, ofParts? negative (shortest .toEven rank).digits (shortest .toEven rank).exponent =
      some y := by
  have hd := (@shortest_bounds rank .toEven hr hi).1
  have hle := shortest_le hr he
  have hexp := exponent_lt hd hi hle
  have hnat : (shortest .toEven rank).exponent.natAbs =
      (shortest .toEven rank).exponent.toNat := by omega
  have hlt : productRank (rankOfNat (shortest .toEven rank).digits)
      (powerRank (shortest .toEven rank).exponent.natAbs) < infiniteRank := by
    by_cases hl : rank ≤ infiniteRank - 3
    · rw [hnat]
      exact productRank_lt hd hl hle
    · exact productRank_lt_of_large hi (Nat.lt_of_not_le hl)
  rw [ofParts?, if_neg (Int.not_lt.2 he), if_pos (by omega)]
  exact exists_ofRank? negative hlt

theorem exists_reread (x : Finite) : ∃ y, x.reread = some y := by
  obtain ⟨negative, rank, hi⟩ := x
  rw [reread]
  dsimp only
  by_cases h0 : rank = 0
  · rw [decimalRead, if_pos h0]
    exact exists_ofParts?_of_neg negative (Nat.zero_le _) (by decide)
  · have hr : 0 < rank := Nat.pos_of_ne_zero h0
    obtain ⟨hd, hle, -, -⟩ := @shortest_bounds rank .toEven hr hi
    rw [decimalRead, if_neg h0, Decimal.asRead]
    split_ifs with hw
    · refine exists_ofParts?_of_neg negative ?_ (by decide : (-1 : Int) < 0)
      dsimp only
      omega
    · by_cases he : 0 ≤ (shortest .toEven rank).exponent
      · exact exists_ofParts?_shortest negative hr hi he
      · exact exists_ofParts?_of_neg negative hle (Int.lt_of_not_ge he)

end Finite

end Conformance
