import Conformance.Double.Shortest
import Conformance.Proofs.Double.Units
import Mathlib.Tactic.Positivity

/-!
# How many digits a magnitude needs

The search for the shortest decimal looks at one to seventeen digits. Here it is
shown that the search always ends with a decimal: on the grid of seventeen digits
one of the two neighbours of a magnitude lies nearer than halfway to the next
magnitude. So the digits of the shortest decimal are a number of at most
`10 ^ 17`, which is what a reader with 64 bits for the digits depends on.
-/
namespace Conformance

theorem pow_shift {a b : Nat} {k : Int} (h : (a : Int) = b + k) :
    10 ^ a * 10 ^ (-k).toNat = 10 ^ b * 10 ^ k.toNat := by
  rw [← Nat.pow_add, ← Nat.pow_add]
  congr 1
  omega

section
variable {rank : Nat} {tie : Tie} {k : Int}

theorem length_toDigits_quotient (c n : Nat) (hr : 0 < rank) (hc : unitsOfOne ≤ 10 ^ c)
    (hn : units rank * Nat.pow 10 c / unitsOfOne = n) :
    ∃ l : Nat, (Nat.toDigits 10 n).length = l + 1 ∧
      10 ^ l * unitsOfOne ≤ units rank * 10 ^ c ∧
      units rank * 10 ^ c < 10 ^ (l + 1) * unitsOfOne := by
  rw [Nat.pow_eq] at hn
  obtain ⟨l, hl⟩ : ∃ l, (Nat.toDigits 10 n).length = l + 1 :=
    Nat.exists_eq_succ_of_ne_zero (Nat.ne_of_gt Nat.length_toDigits_pos)
  have hhigh : n < 10 ^ (l + 1) :=
    (Nat.length_toDigits_le_iff (by decide) (Nat.succ_pos l)).1 (Nat.le_of_eq hl)
  have hlow : 10 ^ l ≤ n := by
    cases l with
    | zero =>
      rw [Nat.pow_zero, ← hn]
      refine (Nat.one_le_div_iff unitsOfOne_pos).2 (hc.trans ?_)
      exact Nat.le_mul_of_pos_left _ (units_pos hr)
    | succ l =>
      refine Nat.le_of_not_lt fun h => ?_
      have := (Nat.length_toDigits_le_iff (by decide) (Nat.succ_pos l)).2 h
      omega
  rw [← hn] at hlow hhigh
  exact ⟨l, hl, (Nat.le_div_iff_mul_le unitsOfOne_pos).1 hlow,
    (Nat.div_lt_iff_lt_mul unitsOfOne_pos).1 hhigh⟩

theorem leadingExponent_cases (hr : 0 < rank) :
    ∃ l c : Nat, c = 400 ∧ leadingExponent rank = l - c ∧
      10 ^ l * unitsOfOne ≤ units rank * 10 ^ c ∧
      units rank * 10 ^ c < 10 ^ (l + 1) * unitsOfOne := by
  have hone : unitsOfOne ≤ 10 ^ 400 := by decide +kernel
  obtain ⟨n, hn⟩ : ∃ n, units rank * Nat.pow 10 400 / unitsOfOne = n := ⟨_, rfl⟩
  have hexp : leadingExponent rank = (Nat.toDigits 10 n).length - 401 := by
    rw [leadingExponent, hn]
  generalize hc : 400 = c at hone hn
  obtain ⟨l, hl, hlow, hhigh⟩ := length_toDigits_quotient c n hr hone hn
  refine ⟨l, c, rfl, ?_, hlow, hhigh⟩
  rw [hexp, hl]
  omega

theorem leadingExponent_bounds (hr : 0 < rank) (hi : rank < infiniteRank) :
    -400 ≤ leadingExponent rank ∧ leadingExponent rank < 400 := by
  obtain ⟨l, _, rfl, hl, hlow, -⟩ := leadingExponent_cases hr
  have hbig : binade * 2 ^ 2046 ≤ 10 ^ 400 * unitsOfOne := by decide +kernel
  have hu : units rank * 10 ^ 400 < 10 ^ (400 + 400) * unitsOfOne :=
    calc units rank * 10 ^ 400 < 10 ^ 400 * unitsOfOne * 10 ^ 400 :=
          Nat.mul_lt_mul_of_pos_right ((units_lt hi).trans_le hbig) (by positivity)
      _ = 10 ^ (400 + 400) * unitsOfOne := by rw [Nat.mul_right_comm, Nat.pow_add]
  have hlt : 10 ^ l < 10 ^ (400 + 400) :=
    Nat.lt_of_mul_lt_mul_right (hlow.trans_lt hu)
  have := (Nat.pow_lt_pow_iff_right (by decide : 1 < 10)).1 hlt
  omega

/-- On the grid that is `n` places below the leading digit, a magnitude has `n + 1` digits. -/
theorem grid_bounds (hr : 0 < rank) (n : Nat) (hk : k = leadingExponent rank - n) :
    10 ^ n * (unitsOfOne * 10 ^ k.toNat) ≤ units rank * 10 ^ (-k).toNat ∧
      units rank * 10 ^ (-k).toNat < 10 ^ (n + 1) * (unitsOfOne * 10 ^ k.toNat) := by
  obtain ⟨l, c, -, hl, hlow, hhigh⟩ := leadingExponent_cases hr
  have hp : 0 < 10 ^ (-k).toNat := Nat.pow_pos (by decide)
  have hs := pow_shift (a := l) (b := n + c) (k := k) (by omega)
  have hs' := pow_shift (a := l + 1) (b := n + 1 + c) (k := k) (by omega)
  rw [Nat.pow_add 10 n] at hs
  rw [Nat.pow_add 10 (n + 1)] at hs'
  constructor
  · refine Nat.le_of_mul_le_mul_right ?_ (Nat.pow_pos (by decide) : 0 < 10 ^ c)
    calc 10 ^ n * (unitsOfOne * 10 ^ k.toNat) * 10 ^ c
        = 10 ^ n * 10 ^ c * 10 ^ k.toNat * unitsOfOne := by ring
      _ = 10 ^ l * unitsOfOne * 10 ^ (-k).toNat := by rw [← hs]; ring
      _ ≤ units rank * 10 ^ c * 10 ^ (-k).toNat := Nat.mul_le_mul_right _ hlow
      _ = units rank * 10 ^ (-k).toNat * 10 ^ c := by ring
  · refine Nat.lt_of_mul_lt_mul_right (a := 10 ^ c) ?_
    calc units rank * 10 ^ (-k).toNat * 10 ^ c
        = units rank * 10 ^ c * 10 ^ (-k).toNat := by ring
      _ < 10 ^ (l + 1) * unitsOfOne * 10 ^ (-k).toNat := Nat.mul_lt_mul_of_pos_right hhigh hp
      _ = 10 ^ (n + 1) * 10 ^ c * 10 ^ k.toNat * unitsOfOne := by rw [← hs']; ring
      _ = 10 ^ (n + 1) * (unitsOfOne * 10 ^ k.toNat) * 10 ^ c := by ring

theorem identifies_of_between {d : Decimal}
    (hlow : (units (rank - 1) + units rank) * 10 ^ (-d.exponent).toNat <
      2 * (d.digits * 10 ^ d.exponent.toNat * unitsOfOne))
    (hhigh : 2 * (d.digits * 10 ^ d.exponent.toNat * unitsOfOne) <
      (units rank + units (rank + 1)) * 10 ^ (-d.exponent).toNat) :
    identifies rank d = true := by
  simp only [identifies, Nat.pow_eq]
  split_ifs
  · simp [hlow.le, hhigh.le]
  · simp [hlow, hhigh]

def lineBelow (rank : Nat) (k : Int) : Nat :=
  units rank * 10 ^ (-k).toNat / (unitsOfOne * 10 ^ k.toNat)

theorem neighbour_cases (tie : Tie) (rank : Nat) (k : Int) :
    (neighbour tie rank k = none ∧ identifies rank ⟨lineBelow rank k, k⟩ = false ∧
        identifies rank ⟨lineBelow rank k + 1, k⟩ = false) ∨
      neighbour tie rank k = some ⟨lineBelow rank k, k⟩ ∨
      neighbour tie rank k = some ⟨lineBelow rank k + 1, k⟩ := by
  unfold neighbour
  extract_lets num den below above
  have hbelow : below = ⟨lineBelow rank k, k⟩ := rfl
  have habove : above = ⟨lineBelow rank k + 1, k⟩ := rfl
  rw [← hbelow, ← habove]
  clear_value below above num den
  generalize identifies rank below = b
  generalize identifies rank above = a
  cases b <;> cases a
  · exact .inl ⟨rfl, rfl, rfl⟩
  · exact .inr (.inr rfl)
  · exact .inr (.inl rfl)
  · right
    cases compare (2 * (num % den)) den with
    | lt => exact .inl rfl
    | gt => exact .inr rfl
    | eq =>
      cases tie with
      | upward => exact .inr rfl
      | toEven =>
        change some (if _ then _ else _) = _ ∨ some (if _ then _ else _) = _
        split_ifs
        · exact .inl rfl
        · exact .inr rfl

theorem eq_of_neighbour {d : Decimal} (h : neighbour tie rank k = some d) :
    d = ⟨lineBelow rank k, k⟩ ∨ d = ⟨lineBelow rank k + 1, k⟩ := by
  obtain ⟨hn, -⟩ | hn | hn := neighbour_cases tie rank k
  · rw [hn] at h
    cases h
  · exact .inl (Option.some.inj (h.symm.trans hn))
  · exact .inr (Option.some.inj (h.symm.trans hn))

theorem not_identifies_of_neighbour (h : neighbour tie rank k = none) :
    identifies rank ⟨lineBelow rank k, k⟩ = false ∧
      identifies rank ⟨lineBelow rank k + 1, k⟩ = false := by
  obtain ⟨-, hn⟩ | hn | hn := neighbour_cases tie rank k
  · exact hn
  · cases h.symm.trans hn
  · cases h.symm.trans hn

theorem identifies_of_neighbour {d : Decimal} (h : neighbour tie rank k = some d) :
    identifies rank d = true := by
  unfold neighbour at h
  extract_lets num den below above at h
  split at h
  · rename_i hbelow habove
    have hd : d = below ∨ d = above := by
      split at h
      · exact .inl (Option.some.inj h).symm
      · exact .inr (Option.some.inj h).symm
      · exact .inr (Option.some.inj h).symm
      · split_ifs at h
        · exact .inl (Option.some.inj h).symm
        · exact .inr (Option.some.inj h).symm
    rcases hd with rfl | rfl
    · exact hbelow
    · exact habove
  · rename_i hbelow _
    exact Option.some.inj h ▸ hbelow
  · rename_i _ habove
    exact Option.some.inj h ▸ habove
  · cases h

/-- A grid whose lines are closer than the two neighbours of a magnitude has a line near it. -/
theorem neighbour_ne_none {s : Nat}
    (hgrid : 2 * (unitsOfOne * 10 ^ k.toNat) < (step s + step (s + 1)) * 10 ^ (-k).toNat) :
    neighbour tie (s + 1) k ≠ none := by
  have hp : 0 < 10 ^ (-k).toNat := Nat.pow_pos (by decide)
  have hlo := Nat.mul_pos (step_pos s) hp
  have hhi := Nat.mul_pos (step_pos (s + 1)) hp
  -- the magnitude lies between two lines of the grid, `rest` above the lower one
  have hnum := Nat.div_add_mod (units (s + 1) * 10 ^ (-k).toNat) (unitsOfOne * 10 ^ k.toNat)
  have hrest := Nat.mod_lt (units (s + 1) * 10 ^ (-k).toNat)
    (Nat.mul_pos unitsOfOne_pos (Nat.pow_pos (by decide : 0 < 10) (n := k.toNat)))
  rw [Nat.mul_comm, ← lineBelow] at hnum
  have hline : ∀ n, n * 10 ^ k.toNat * unitsOfOne = n * (unitsOfOne * 10 ^ k.toNat) := by
    intro n
    ring
  have hnext : ∀ n, (n + 1) * 10 ^ k.toNat * unitsOfOne =
      n * (unitsOfOne * 10 ^ k.toNat) + unitsOfOne * 10 ^ k.toNat := by
    intro n
    ring
  have hlow : (units s + units (s + 1)) * 10 ^ (-k).toNat + step s * 10 ^ (-k).toNat =
      2 * (units (s + 1) * 10 ^ (-k).toNat) := by
    rw [units_succ]
    ring
  have hhigh : (units (s + 1) + units (s + 1 + 1)) * 10 ^ (-k).toNat =
      2 * (units (s + 1) * 10 ^ (-k).toNat) + step (s + 1) * 10 ^ (-k).toNat := by
    rw [units_succ (s + 1)]
    ring
  rw [Nat.add_mul] at hgrid
  generalize units (s + 1) * 10 ^ (-k).toNat = num at *
  generalize num % (unitsOfOne * 10 ^ k.toNat) = rest at *
  intro hn
  obtain ⟨hbelow, habove⟩ := not_identifies_of_neighbour hn
  by_cases h : 2 * rest < step s * 10 ^ (-k).toNat
  · refine absurd hbelow (ne_true_of_eq_false · (identifies_of_between ?_ ?_))
    all_goals simp only [hline, Nat.add_sub_cancel, hhigh]
    all_goals omega
  · refine absurd habove (ne_true_of_eq_false · (identifies_of_between ?_ ?_))
    all_goals simp only [hnext, Nat.add_sub_cancel, hhigh]
    all_goals omega

theorem shortest_eq (tie : Tie) (hr : 0 < rank) :
    ∃ n digits : Nat, n < 17 ∧ 0 < digits ∧ digits ≤ 10 ^ 17 ∧
      identifies rank ⟨digits, leadingExponent rank - n⟩ = true ∧
      shortest tie rank = stripZeros digits (leadingExponent rank - n) := by
  cases hf : (List.range 17).findSome? fun (n : Nat) =>
      neighbour tie rank (leadingExponent rank - n) with
  | none =>
    -- With seventeen digits the lines of the grid are too close to miss the magnitude.
    have hn := List.findSome?_eq_none_iff.1 hf 16 (by simp)
    obtain ⟨s, rfl⟩ := Nat.exists_eq_succ_of_ne_zero (Nat.ne_of_gt hr)
    refine absurd hn (neighbour_ne_none ?_)
    have hg := (grid_bounds hr 16 rfl).1
    have hs := units_lt_spacing s
    have hp : 0 < 10 ^ (-(leadingExponent (s + 1) - (16 : Nat))).toNat := Nat.pow_pos (by decide)
    generalize (leadingExponent (s + 1) - (16 : Nat)) = k at *
    refine Nat.lt_of_mul_lt_mul_left (a := 10 ^ 16) ?_
    calc 10 ^ 16 * (2 * (unitsOfOne * 10 ^ k.toNat))
        = 2 * (10 ^ 16 * (unitsOfOne * 10 ^ k.toNat)) := by ring
      _ ≤ 2 * (units (s + 1) * 10 ^ (-k).toNat) := Nat.mul_le_mul_left 2 hg
      _ = 2 * units (s + 1) * 10 ^ (-k).toNat := by ring
      _ < 10 ^ 16 * (step s + step (s + 1)) * 10 ^ (-k).toNat := Nat.mul_lt_mul_of_pos_right hs hp
      _ = 10 ^ 16 * ((step s + step (s + 1)) * 10 ^ (-k).toNat) := by ring
  | some d =>
    obtain ⟨n, hn, hd⟩ := List.exists_of_findSome?_eq_some hf
    obtain ⟨hlow, hhigh⟩ := grid_bounds hr n rfl
    generalize hk : leadingExponent rank - n = k at *
    have hden : 0 < unitsOfOne * 10 ^ k.toNat :=
      Nat.mul_pos unitsOfOne_pos (Nat.pow_pos (by decide))
    have hpos : 10 ^ n ≤ lineBelow rank k := (Nat.le_div_iff_mul_le hden).2 hlow
    have hlt : lineBelow rank k < 10 ^ (n + 1) := (Nat.div_lt_iff_lt_mul hden).2 hhigh
    have h1 : 0 < 10 ^ n := Nat.pow_pos (by decide)
    have h17 : 10 ^ (n + 1) ≤ 10 ^ 17 :=
      Nat.pow_le_pow_right (by decide) (by have := List.mem_range.1 hn; omega)
    have hs : shortest tie rank = stripZeros d.digits d.exponent := by
      simp only [shortest, hf]
    have hid := identifies_of_neighbour hd
    refine ⟨n, d.digits, List.mem_range.1 hn, ?_⟩
    obtain rfl | rfl := eq_of_neighbour hd
    · exact ⟨h1.trans_le hpos, Nat.le_of_succ_le (hlt.trans_le h17), by rwa [hk], by rw [hs, hk]⟩
    · exact ⟨Nat.succ_pos _, hlt.trans_le h17, by rwa [hk], by rw [hs, hk]⟩

theorem stripZeros_eq (digits : Nat) (k : Int) (hd : 0 < digits) :
    ∃ d j : Nat, stripZeros digits k = ⟨d, k + j⟩ ∧ 0 < d ∧ digits = d * 10 ^ j := by
  fun_induction stripZeros digits k with
  | case1 digits k h ih =>
    obtain ⟨d, j, hs, h0, he⟩ := ih (by omega)
    refine ⟨d, j + 1, ?_, h0, ?_⟩
    · rw [hs]
      congr 1
      push_cast
      ring
    · rw [Nat.pow_succ, ← Nat.mul_assoc, ← he]
      omega
  | case2 digits k h => exact ⟨digits, 0, by simp, hd, by simp⟩

theorem shortest_bounds (hr : 0 < rank) (hi : rank < infiniteRank) :
    0 < (shortest tie rank).digits ∧ (shortest tie rank).digits ≤ 10 ^ 17 ∧
      -417 < (shortest tie rank).exponent ∧ (shortest tie rank).exponent < 418 := by
  obtain ⟨n, digits, hn, h0, hle, -, hs⟩ := shortest_eq tie hr
  obtain ⟨hlow, hhigh⟩ := leadingExponent_bounds hr hi
  obtain ⟨d, j, hz, hd, he⟩ := stripZeros_eq digits (leadingExponent rank - n) h0
  have hj : j ≤ 17 := by
    refine (Nat.pow_le_pow_iff_right (by decide : 1 < 10)).1 (le_trans ?_ hle)
    exact he ▸ Nat.le_mul_of_pos_left _ hd
  have hdl : d ≤ digits := he ▸ Nat.le_mul_of_pos_right _ (Nat.pow_pos (by decide))
  rw [hs, hz]
  refine ⟨hd, hdl.trans hle, ?_, ?_⟩
  · dsimp only
    omega
  · dsimp only
    omega

end

end Conformance
