import Conformance.Proofs.Json.Numeral

/-!
# Reading back numbers

What the reader makes of a written number. Its digits all fit the significand,
so what is gathered is known exactly: it is the shortest decimal, or, for a
whole number below `10 ^ 16`, that decimal with the zero behind its point
(`Decimal.asRead`). The arithmetic of the reader on these two numbers then gives
`Finite.reread`, which may be another number than the one that was written.
-/
namespace Conformance

/-- The digits and the power of ten that are gathered from a decimal as it is written. -/
def Decimal.asRead (d : Decimal) : Decimal :=
  if 0 ≤ d.exponent ∧ d.digits * 10 ^ d.exponent.toNat < 10 ^ 16 then
    ⟨d.digits * 10 ^ d.exponent.toNat * 10, -1⟩
  else d

def decimalRead (rank : Nat) : Decimal :=
  if rank = 0 then ⟨0, -1⟩ else (shortest .toEven rank).asRead

def Finite.reread (x : Finite) : Option Finite :=
  Finite.ofParts? x.negative (decimalRead x.rank).digits (decimalRead x.rank).exponent

def Json.Number.reread : Json.Number → Option Json.Number
  | integer n lower upper => some (integer n lower upper)
  | float x => x.reread.map float

namespace Reader

variable {negative : Bool} {rest : List Char}

theorem head?_toDigits_ne {n : Nat} (hn : 0 < n) : (Nat.toDigits 10 n).head? ≠ some '0' := by
  induction n using Nat.strongRecOn with
  | ind n ih =>
    by_cases h : n < 10
    · have hd : ∀ d < 10, 0 < d → Nat.digitChar d ≠ '0' := by decide
      rw [Nat.toDigits_of_lt_base h]
      intro h0
      exact hd n h hn (Option.some.inj h0)
    · have hq := ih (n / 10) (by omega) (by omega)
      rw [Nat.toDigits_of_base_le (by decide) (by omega),
        List.head?_append_of_ne_nil _ Nat.toDigits_ne_nil]
      exact hq

theorem length_toDigits_bounds {n : Nat} (hn : 0 < n) :
    10 ^ ((Nat.toDigits 10 n).length - 1) ≤ n ∧ n < 10 ^ (Nat.toDigits 10 n).length := by
  have hlen : 0 < (Nat.toDigits 10 n).length := Nat.length_toDigits_pos
  refine ⟨?_, (Nat.length_toDigits_le_iff (by decide) hlen).1 (Nat.le_refl _)⟩
  by_cases h : (Nat.toDigits 10 n).length = 1
  · rw [h]
    exact hn
  · refine Nat.le_of_not_lt fun hlt => ?_
    have := (Nat.length_toDigits_le_iff (by decide) (by omega)).2 hlt
    omega

theorem mul_pow_lt_pow_iff {m : Nat} (hm : 0 < m) (k n : Nat) :
    m * 10 ^ k < 10 ^ n ↔ (Nat.toDigits 10 m).length + k ≤ n := by
  obtain ⟨hmin, hmax⟩ := length_toDigits_bounds hm
  constructor
  · intro h
    by_contra hn
    have hge : 10 ^ n ≤ m * 10 ^ k := by
      calc 10 ^ n ≤ 10 ^ ((Nat.toDigits 10 m).length - 1 + k) :=
            Nat.pow_le_pow_right (by decide) (by omega)
        _ = 10 ^ ((Nat.toDigits 10 m).length - 1) * 10 ^ k := Nat.pow_add ..
        _ ≤ m * 10 ^ k := Nat.mul_le_mul_right _ hmin
    omega
  · intro h
    calc m * 10 ^ k < 10 ^ (Nat.toDigits 10 m).length * 10 ^ k :=
          Nat.mul_lt_mul_of_pos_right hmax (Nat.pow_pos (by decide))
      _ = 10 ^ ((Nat.toDigits 10 m).length + k) := (Nat.pow_add ..).symm
      _ ≤ 10 ^ n := Nat.pow_le_pow_right (by decide) h

theorem unsignedNumber_decimalText {d : Decimal} (hd : 0 < d.digits) (hle : d.digits ≤ 10 ^ 17)
    (hlow : -417 < d.exponent) (hhigh : d.exponent < 418) (hr : EndsNumber rest) :
    unsignedNumber negative (NumberStyle.json.decimalText d ++ rest) =
      finishFloat negative d.asRead.digits d.asRead.exponent rest := by
  obtain ⟨digits, exponent⟩ := d
  dsimp only at hd hle hlow hhigh
  have hlen : 0 < (Nat.toDigits 10 digits).length := Nat.length_toDigits_pos
  have hlen' : (Nat.toDigits 10 digits).length ≤ 18 :=
    (Nat.length_toDigits_le_iff (by decide) (by decide)).2 (by omega)
  have hlt := mul_pow_lt_pow_iff hd exponent.toNat 16
  have hds := isDigits_toDigits digits
  have hne : Nat.toDigits 10 digits ≠ [] := Nat.toDigits_ne_nil
  have h0 := head?_toDigits_ne hd
  have hv : Nat.ofDigitChars 10 (Nat.toDigits 10 digits) 0 = digits :=
    Nat.ofDigitChars_ten_toDigits
  simp only [NumberStyle.decimalText]
  generalize Nat.toDigits 10 digits = ds at *
  have hlim : Nat.ofDigitChars 10 ds 0 < significandLimit := by
    rw [hv, significandLimit]
    omega
  generalize hlead : exponent + ((ds.length - 1 : Nat) : Int) = lead
  have hexp : lead + 1 - ds.length = exponent := by omega
  have hplain (h : ¬ (0 ≤ exponent ∧ digits * 10 ^ exponent.toNat < 10 ^ 16)) :
      (⟨digits, exponent⟩ : Decimal).asRead = ⟨digits, exponent⟩ := if_neg h
  -- the four layouts: `0.00ddd`, `ddd00.0`, `d.dd` and `d.dde+n`
  split
  · rename_i hp
    have hp : -5 ≤ lead ∧ lead ≤ 15 := by simpa [NumberStyle.json] using hp
    change unsignedNumber negative (NumberStyle.positionalText true ds lead ++ rest) = _
    by_cases hneg : lead < 0
    · rw [unsignedNumber_below_one hneg hds hne hlim hr, hv, hexp, hplain (by omega)]
    · by_cases hwhole : ds.length ≤ lead.toNat + 1
      · have he : lead.toNat + 1 - ds.length = exponent.toNat := by omega
        have hlt : digits * 10 ^ exponent.toNat < 10 ^ 16 := hlt.2 (by omega)
        rw [unsignedNumber_whole (by omega) hwhole hds hne h0
          (by rw [hv, he, significandLimit]; omega) hr, hv, he, Decimal.asRead,
          if_pos ⟨by dsimp only; omega, hlt⟩]
      · rw [unsignedNumber_split (by omega) (by omega) hds h0 hlim hr, hv, hexp, hplain (by omega)]
  · rename_i hp
    have hp : lead < -5 ∨ 15 < lead := by
      simp only [NumberStyle.json, Bool.and_eq_true, decide_eq_true_eq] at hp
      omega
    rw [unsignedNumber_scientific (by rw [exponentLimit]; omega) hds hne h0 hlim hr, hv, hexp,
      hplain (by omega)]

theorem unsignedNumber_magnitudeText {rank : Nat} (hi : rank < infiniteRank)
    (hr : EndsNumber rest) :
    unsignedNumber negative (NumberStyle.json.magnitudeText rank ++ rest) =
      finishFloat negative (decimalRead rank).digits (decimalRead rank).exponent rest := by
  by_cases h : rank = 0
  · have hz : IsDigits ['0'] := isDigits_replicate 1
    rw [NumberStyle.magnitudeText, decimalRead, if_pos h, if_pos h]
    change unsignedNumber negative ('0' :: '.' :: (['0'] ++ rest)) = _
    rw [unsignedNumber_zero rfl, afterWhole_point hz (by simp) (by decide) hr.digit,
      exponentOrEnd_end hr]
    rfl
  · obtain ⟨hd, hle, hlow, hhigh⟩ := @shortest_bounds rank .toEven (Nat.pos_of_ne_zero h) hi
    rw [NumberStyle.magnitudeText, decimalRead, if_neg h, if_neg h]
    exact unsignedNumber_decimalText hd hle hlow hhigh hr

theorem startsWithDigit_decimalText (style : NumberStyle) (d : Decimal) :
    startsWithDigit (style.decimalText d) = true := by
  have hds := isDigits_toDigits d.digits
  have hne : Nat.toDigits 10 d.digits ≠ [] := Nat.toDigits_ne_nil
  simp only [NumberStyle.decimalText]
  generalize Nat.toDigits 10 d.digits = ds at *
  cases ds with
  | nil => exact absurd rfl hne
  | cons c cs =>
    have hc : c.isDigit = true := hds c List.mem_cons_self
    split
    · simp only [NumberStyle.positionalText]
      split
      · rfl
      · split
        · exact hc
        · exact hc
    · cases cs with
      | nil => exact hc
      | cons c' cs => exact hc

theorem startsWithDigit_magnitudeText (style : NumberStyle) (rank : Nat) :
    startsWithDigit (style.magnitudeText rank) = true := by
  simp only [NumberStyle.magnitudeText]
  split
  · split <;> rfl
  · exact startsWithDigit_decimalText style _

/-- A text that is read as the given number, or refused when there is none, wherever it stands. -/
def ReadAs (text : List Char) (n : Option Json.Number) : Prop :=
  ∃ c r, text = c :: r ∧ startsNumber c = true ∧
    ∀ rest, EndsNumber rest → (number c (r ++ rest)).toOption = n.map (·, rest)

theorem readAs_signed {text : List Char} {n : Option Json.Number} (negative : Bool)
    (hs : startsWithDigit text = true)
    (h : ∀ rest, EndsNumber rest →
      (unsignedNumber negative (text ++ rest)).toOption = n.map (·, rest)) :
    ReadAs ((if negative then ['-'] else []) ++ text) n := by
  cases negative with
  | true => exact ⟨'-', text, rfl, rfl, fun rest hr => h rest hr⟩
  | false =>
    cases text with
    | nil => cases hs
    | cons c r =>
      have hc : c ≠ '-' := by
        intro hc
        rw [hc] at hs
        cases hs
      refine ⟨c, r, rfl, by simp [startsNumber, show c.isDigit = true from hs], fun rest hr => ?_⟩
      rw [number, if_neg hc]
      exact h rest hr

theorem toOption_finishFloat (negative : Bool) (m : Nat) (e : Int) (rest : List Char) :
    (finishFloat negative m e rest).toOption =
      ((Finite.ofParts? negative m e).map Json.Number.float).map (·, rest) := by
  unfold finishFloat
  cases Finite.ofParts? negative m e <;> rfl

theorem readAs_float (x : Finite) : ReadAs (x.text .json) (x.reread.map .float) := by
  rw [Finite.text]
  refine readAs_signed x.negative (startsWithDigit_magnitudeText .json x.rank) fun rest hr => ?_
  rw [unsignedNumber_magnitudeText x.rank_lt hr, toOption_finishFloat, Finite.reread]

theorem afterWhole_end {m : Nat} (hr : EndsNumber rest) :
    afterWhole negative m 0 rest = wholeNumber negative m rest := by
  unfold afterWhole
  split
  · exact absurd rfl hr.point
  · exact absurd rfl hr.lower
  · exact absurd rfl hr.upper
  · exact if_pos rfl

theorem unsignedNumber_toDigits {n : Nat} (hn : n < significandLimit) (hr : EndsNumber rest) :
    unsignedNumber negative (Nat.toDigits 10 n ++ rest) = wholeNumber negative n rest := by
  by_cases h : n = 0
  · rw [h, Nat.toDigits_zero, List.singleton_append, unsignedNumber_zero hr.digit,
      afterWhole_end hr]
  · have hv : Nat.ofDigitChars 10 (Nat.toDigits 10 n) 0 = n := Nat.ofDigitChars_ten_toDigits
    rw [unsignedNumber_append (isDigits_toDigits n) Nat.toDigits_ne_nil
      (head?_toDigits_ne (Nat.pos_of_ne_zero h)) (hv.symm ▸ hn) hr.digit, hv, afterWhole_end hr]

theorem readAs_integer (n : Int) (lower : -0x8000000000000000 ≤ n)
    (upper : n < 0x10000000000000000) :
    ReadAs (Json.integerText n) (some (.integer n lower upper)) := by
  have hs : startsWithDigit (Nat.toDigits 10 n.natAbs) = true := by
    have h := @startsWithDigit_append _ [] (isDigits_toDigits n.natAbs) Nat.toDigits_ne_nil
    rwa [List.append_nil] at h
  have hv : signed (decide (n < 0)) n.natAbs = n := by
    by_cases h : n < 0
    · simp only [signed, h, decide_true, if_true]
      omega
    · simp only [signed, h, decide_false, Bool.false_eq_true, if_false]
      omega
  have hz : ¬ (decide (n < 0) = true ∧ n.natAbs = 0) := by
    simp only [decide_eq_true_eq]
    omega
  have hin : -0x8000000000000000 ≤ signed (decide (n < 0)) n.natAbs ∧
      signed (decide (n < 0)) n.natAbs < 0x10000000000000000 := by
    rw [hv]
    exact ⟨lower, upper⟩
  have h := readAs_signed (decide (n < 0)) hs (n := some (.integer n lower upper)) fun rest hr => by
    rw [unsignedNumber_toDigits (by rw [significandLimit]; omega) hr, wholeNumber, if_neg hz,
      dif_pos hin]
    simp only [hv]
    rfl
  rw [Json.integerText]
  simpa only [decide_eq_true_eq] using h

theorem readAs_text (n : Json.Number) : ReadAs n.text n.reread := by
  cases n with
  | integer n lower upper => exact readAs_integer n lower upper
  | float x => exact readAs_float x

end Reader

namespace Finite

variable {x y : Finite}

def ReadsBack (x : Finite) : Prop :=
  ∃ c r n, x.text .json = c :: r ∧ Reader.number c r = .ok (n, []) ∧
    n.toDouble.equals (.finite x) = true

theorem negative_of_ofParts? {negative : Bool} {m : Nat} {e : Int}
    (h : ofParts? negative m e = some y) : y.negative = negative := by
  have hr (rank : Nat) (h : ofRank? negative rank = some y) : y.negative = negative := by
    unfold ofRank? at h
    split at h
    · cases h
      rfl
    · cases h
  simp only [ofParts?] at h
  split at h
  · exact hr _ h
  · split at h
    · exact hr _ h
    · split at h
      · exact hr _ h
      · cases h

theorem eq_of_reread_equals (h : x.reread = some y) (he : x.equals y = true) : y = x := by
  have hn := negative_of_ofParts? h
  obtain ⟨negative, rank, hr⟩ := x
  obtain ⟨negative', rank', hr'⟩ := y
  simp only [equals, Bool.and_eq_true, beq_iff_eq] at he
  obtain ⟨rfl, -⟩ := he
  cases hn
  rfl

theorem readsBack_iff : x.ReadsBack ↔ x.reread = some x := by
  obtain ⟨c, r, ht, -, hn⟩ := Reader.readAs_float x
  have h := hn [] Reader.endsNumber_nil
  rw [List.append_nil] at h
  constructor
  · intro hb
    obtain ⟨c', r', n, ht', hr, he⟩ := hb
    rw [ht] at ht'
    cases ht'
    rw [hr] at h
    cases hx : x.reread with
    | none =>
      rw [hx] at h
      cases h
    | some y =>
      rw [hx] at h
      cases h
      rw [eq_of_reread_equals hx (by rw [equals_comm]; exact he)]
  · intro hx
    rw [hx] at h
    cases hr : Reader.number c r with
    | error e =>
      rw [hr] at h
      cases h
    | ok p =>
      rw [hr] at h
      cases h
      exact ⟨c, r, _, ht, hr, equals_refl x⟩

end Finite

/-- The number is finite, and the reader of numbers takes the text that is written for it and makes
an equal number of it. -/
def Double.ReadsBack : Double → Prop
  | .finite x => x.ReadsBack
  | _ => False

end Conformance
