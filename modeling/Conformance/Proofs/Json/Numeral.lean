import Conformance.Json.Text
import Conformance.Json.Reader.Number
import Conformance.Proofs.Double.Shortest

/-!
# Reading back numbers

The reader takes the digits of a numeral into a significand and counts the power
of ten. Here it is followed along the text that is written for a number. The
digits of a written number all fit the significand, so what the reader gathers
is known exactly: the shortest decimal, and for a whole number below `10 ^ 16`
that decimal with the zero that is written behind its point. What the reader
then makes of it is `Finite.reread`.
-/
namespace Conformance.Reader

def IsDigits (ds : List Char) : Prop := ∀ c ∈ ds, c.isDigit = true

structure EndsNumber (rest : List Char) : Prop where
  digit : startsWithDigit rest = false
  point : rest.head? ≠ some '.'
  lower : rest.head? ≠ some 'e'
  upper : rest.head? ≠ some 'E'

theorem endsNumber_nil : EndsNumber [] := ⟨rfl, nofun, nofun, nofun⟩

theorem endsNumber_cons {c : Char} (hc : c ∈ [',', ']', '}']) (rest : List Char) :
    EndsNumber (c :: rest) := by
  simp only [List.mem_cons, List.not_mem_nil, or_false] at hc
  rcases hc with rfl | rfl | rfl
  · exact ⟨rfl, by simp, by simp, by simp⟩
  · exact ⟨rfl, by simp, by simp, by simp⟩
  · exact ⟨rfl, by simp, by simp, by simp⟩

section
variable {ds rest : List Char} {limit n : Nat} {negative : Bool} {m : Nat} {e : Int}

theorem isDigits_append {es : List Char} (hd : IsDigits ds) (he : IsDigits es) :
    IsDigits (ds ++ es) := by
  intro c hc
  rcases List.mem_append.1 hc with h | h
  · exact hd c h
  · exact he c h

theorem isDigits_replicate (k : Nat) : IsDigits (List.replicate k '0') := by
  intro c hc
  rw [List.eq_of_mem_replicate hc]
  rfl

theorem isDigits_toDigits (k : Nat) : IsDigits (Nat.toDigits 10 k) := fun _ hc =>
  Nat.isDigit_of_mem_toDigits (by decide) (by decide) hc

theorem le_ofDigitChars (ds : List Char) (n : Nat) : n ≤ Nat.ofDigitChars 10 ds n := by
  rw [Nat.ofDigitChars_eq_ofDigitChars_zero]
  have h : 0 < 10 ^ ds.length := Nat.pow_pos (by decide)
  nlinarith

theorem startsWithDigit_append (hd : IsDigits ds) (hne : ds ≠ []) :
    startsWithDigit (ds ++ rest) = true := by
  cases ds with
  | nil => exact absurd rfl hne
  | cons c ds => exact hd c List.mem_cons_self

theorem skipDigits_of_not_digit (hr : startsWithDigit rest = false) : skipDigits rest = rest := by
  cases rest with
  | nil => rfl
  | cons c r =>
    change c.isDigit = false at hr
    simp [skipDigits, hr]

theorem takeWhile_of_not_digit (hr : startsWithDigit rest = false) :
    rest.takeWhile Char.isDigit = [] := by
  cases rest with
  | nil => rfl
  | cons c r =>
    change c.isDigit = false at hr
    simp [hr]

theorem absorb_append (count : Nat) (hd : IsDigits ds) (hr : startsWithDigit rest = false)
    (hl : Nat.ofDigitChars 10 ds n < limit) :
    absorb limit n count (ds ++ rest) =
      (Nat.ofDigitChars 10 ds n, count + ds.length, rest) := by
  induction ds generalizing n count with
  | nil =>
    cases rest with
    | nil => rfl
    | cons c r =>
      change c.isDigit = false at hr
      simp [absorb, hr]
  | cons c ds ih =>
    have hc : c.isDigit = true := hd c List.mem_cons_self
    have hv : 10 * n + (c.toNat - '0'.toNat) = n * 10 + digitValue c := by
      rw [digitValue, Nat.mul_comm]
    rw [Nat.ofDigitChars_cons, hv] at hl ⊢
    have hlt : n * 10 + digitValue c < limit := (le_ofDigitChars ds _).trans_lt hl
    rw [List.cons_append, absorb, hc, Bool.true_and, if_pos (decide_eq_true hlt),
      ih (count + 1) (fun x hx => hd x (List.mem_cons_of_mem c hx)) hl, List.length_cons]
    congr 2
    omega

theorem unsignedNumber_zero (hr : startsWithDigit rest = false) :
    unsignedNumber negative ('0' :: rest) = afterWhole negative 0 0 rest := by
  simp [unsignedNumber, hr]

theorem unsignedNumber_append (hd : IsDigits ds) (hne : ds ≠ []) (h0 : ds.head? ≠ some '0')
    (hl : Nat.ofDigitChars 10 ds 0 < significandLimit) (hr : startsWithDigit rest = false) :
    unsignedNumber negative (ds ++ rest) =
      afterWhole negative (Nat.ofDigitChars 10 ds 0) 0 rest := by
  have ha := absorb_append 0 hd hr hl
  cases ds with
  | nil => exact absurd rfl hne
  | cons c ds =>
    have hc : c.isDigit = true := hd c List.mem_cons_self
    have hz : c ≠ '0' := fun h => h0 (by rw [h]; rfl)
    rw [List.cons_append] at ha ⊢
    simp only [unsignedNumber, hz, if_false, hc, Bool.not_true, Bool.false_eq_true, ha,
      takeWhile_of_not_digit hr, skipDigits_of_not_digit hr, List.length_nil]

theorem fractionPart_append (hd : IsDigits ds) (hne : ds ≠ [])
    (hl : Nat.ofDigitChars 10 ds m < significandLimit) (hr : startsWithDigit rest = false) :
    fractionPart negative m e (ds ++ rest) =
      exponentOrEnd negative (Nat.ofDigitChars 10 ds m) (e - ds.length) rest := by
  have ha := absorb_append 0 hd hr hl
  cases ds with
  | nil => exact absurd rfl hne
  | cons c ds =>
    have hc : c.isDigit = true := hd c List.mem_cons_self
    rw [List.cons_append] at ha ⊢
    simp only [fractionPart, hc, Bool.not_true, Bool.false_eq_true, if_false, ha,
      skipDigits_of_not_digit hr, Nat.zero_add]

theorem exponentOrEnd_end (hr : EndsNumber rest) :
    exponentOrEnd negative m e rest = finishFloat negative m e rest := by
  unfold exponentOrEnd
  split
  · exact absurd rfl hr.lower
  · exact absurd rfl hr.upper
  · rfl

theorem exponentDigits_append (down : Bool) (hd : IsDigits ds) (hne : ds ≠ [])
    (hl : Nat.ofDigitChars 10 ds 0 < exponentLimit) (hr : startsWithDigit rest = false) :
    exponentDigits negative m e down (ds ++ rest) =
      finishFloat negative m
        (if down then e - Nat.ofDigitChars 10 ds 0 else e + Nat.ofDigitChars 10 ds 0) rest := by
  have ha := absorb_append 0 hd hr hl
  cases ds with
  | nil => exact absurd rfl hne
  | cons c ds =>
    have hc : c.isDigit = true := hd c List.mem_cons_self
    rw [List.cons_append] at ha ⊢
    simp only [exponentDigits, hc, Bool.not_true, Bool.false_eq_true, if_false, ha, hr,
      Bool.not_false, if_true]

theorem exponentPart_text {k : Int} (hk : k.natAbs < exponentLimit) (hr : EndsNumber rest) :
    exponentPart negative m e ((NumberStyle.exponentText k).tail ++ rest) =
      finishFloat negative m (e + k) rest := by
  have hd := isDigits_toDigits k.natAbs
  have hl : Nat.ofDigitChars 10 (Nat.toDigits 10 k.natAbs) 0 < exponentLimit := by
    rwa [Nat.ofDigitChars_ten_toDigits]
  by_cases h : k < 0
  · simp only [NumberStyle.exponentText, h, if_true, List.tail_cons, List.cons_append,
      exponentPart, exponentDigits_append true hd Nat.toDigits_ne_nil hl hr.digit,
      Nat.ofDigitChars_ten_toDigits]
    congr 1
    omega
  · simp only [NumberStyle.exponentText, h, if_false, List.tail_cons, List.cons_append,
      exponentPart, exponentDigits_append false hd Nat.toDigits_ne_nil hl hr.digit,
      Nat.ofDigitChars_ten_toDigits, Bool.false_eq_true]
    congr 1
    omega

theorem afterWhole_point (hd : IsDigits ds) (hne : ds ≠ [])
    (hl : Nat.ofDigitChars 10 ds m < significandLimit) (hr : startsWithDigit rest = false) :
    afterWhole negative m 0 ('.' :: (ds ++ rest)) =
      exponentOrEnd negative (Nat.ofDigitChars 10 ds m) (-ds.length) rest := by
  change fractionPart negative m (0 : Nat) (ds ++ rest) = _
  rw [fractionPart_append hd hne hl hr]
  congr 1
  omega

theorem afterWhole_exponent {k : Int} (hk : k.natAbs < exponentLimit) (hr : EndsNumber rest) :
    afterWhole negative m 0 (NumberStyle.exponentText k ++ rest) =
      finishFloat negative m k rest := by
  change exponentPart negative m (0 : Nat) ((NumberStyle.exponentText k).tail ++ rest) = _
  rw [exponentPart_text hk hr, Nat.cast_zero, Int.zero_add]

theorem exponentOrEnd_exponent {k : Int} (hk : k.natAbs < exponentLimit) (hr : EndsNumber rest) :
    exponentOrEnd negative m e (NumberStyle.exponentText k ++ rest) =
      finishFloat negative m (e + k) rest :=
  exponentPart_text hk hr

theorem unsignedNumber_below_one {lead : Int} (hlead : lead < 0) (hd : IsDigits ds)
    (hne : ds ≠ []) (hl : Nat.ofDigitChars 10 ds 0 < significandLimit) (hr : EndsNumber rest) :
    unsignedNumber negative (NumberStyle.positionalText true ds lead ++ rest) =
      finishFloat negative (Nat.ofDigitChars 10 ds 0) (lead + 1 - ds.length) rest := by
  let zeros := List.replicate (-lead - 1).toNat '0'
  have hv : Nat.ofDigitChars 10 (zeros ++ ds) 0 = Nat.ofDigitChars 10 ds 0 := by
    rw [Nat.ofDigitChars_append, Nat.ofDigitChars_replicate_zero, Nat.mul_zero]
  have ht : NumberStyle.positionalText true ds lead ++ rest =
      '0' :: '.' :: (zeros ++ ds ++ rest) := by
    rw [NumberStyle.positionalText, if_pos hlead]
    rfl
  rw [ht, unsignedNumber_zero rfl,
    afterWhole_point (isDigits_append (isDigits_replicate _) hd) (by simp [hne]) (hv ▸ hl) hr.digit,
    exponentOrEnd_end hr, hv, List.length_append, List.length_replicate]
  congr 1
  omega

theorem unsignedNumber_whole {lead : Int} (hlead : 0 ≤ lead) (hlen : ds.length ≤ lead.toNat + 1)
    (hd : IsDigits ds) (hne : ds ≠ []) (h0 : ds.head? ≠ some '0')
    (hl : Nat.ofDigitChars 10 ds 0 * 10 ^ (lead.toNat + 1 - ds.length) * 10 < significandLimit)
    (hr : EndsNumber rest) :
    unsignedNumber negative (NumberStyle.positionalText true ds lead ++ rest) =
      finishFloat negative (Nat.ofDigitChars 10 ds 0 * 10 ^ (lead.toNat + 1 - ds.length) * 10) (-1)
        rest := by
  let zeros := List.replicate (lead.toNat + 1 - ds.length) '0'
  let v := Nat.ofDigitChars 10 ds 0 * 10 ^ (lead.toNat + 1 - ds.length)
  have hv : Nat.ofDigitChars 10 (ds ++ zeros) 0 = v := by
    rw [Nat.ofDigitChars_append, Nat.ofDigitChars_replicate_zero, Nat.mul_comm]
  have hz : Nat.ofDigitChars 10 ['0'] v = v * 10 := by
    rw [Nat.mul_comm]
    rfl
  have ht : NumberStyle.positionalText true ds lead ++ rest =
      ds ++ zeros ++ ('.' :: (['0'] ++ rest)) := by
    rw [NumberStyle.positionalText, if_neg (Int.not_lt.2 hlead)]
    simp only [hlen, if_true, List.append_assoc]
    rfl
  have hhead : (ds ++ zeros).head? ≠ some '0' := by
    cases ds with
    | nil => exact absurd rfl hne
    | cons c ds => exact h0
  rw [ht, unsignedNumber_append (isDigits_append hd (isDigits_replicate _)) (by simp [hne]) hhead
      (by rw [hv]; exact lt_of_le_of_lt (Nat.le_mul_of_pos_right _ (by decide)) hl) rfl, hv,
    afterWhole_point (by intro c hc; cases List.mem_singleton.1 hc; rfl) (by simp)
      (by rw [hz]; exact hl) hr.digit, exponentOrEnd_end hr, hz]
  rfl

theorem unsignedNumber_split {lead : Int} (hlead : 0 ≤ lead) (hlen : lead.toNat + 1 < ds.length)
    (hd : IsDigits ds) (h0 : ds.head? ≠ some '0')
    (hl : Nat.ofDigitChars 10 ds 0 < significandLimit) (hr : EndsNumber rest) :
    unsignedNumber negative (NumberStyle.positionalText true ds lead ++ rest) =
      finishFloat negative (Nat.ofDigitChars 10 ds 0) (lead + 1 - ds.length) rest := by
  have hne : ds ≠ [] := List.ne_nil_of_length_pos (by omega)
  have ht : NumberStyle.positionalText true ds lead ++ rest =
      ds.take (lead.toNat + 1) ++ ('.' :: (ds.drop (lead.toNat + 1) ++ rest)) := by
    rw [NumberStyle.positionalText, if_neg (Int.not_lt.2 hlead)]
    simp only [Nat.not_le.2 hlen, if_false, List.append_assoc, List.cons_append]
  have hv : Nat.ofDigitChars 10 (ds.drop (lead.toNat + 1))
      (Nat.ofDigitChars 10 (ds.take (lead.toNat + 1)) 0) = Nat.ofDigitChars 10 ds 0 := by
    rw [← Nat.ofDigitChars_append, List.take_append_drop]
  have hle := le_ofDigitChars (ds.drop (lead.toNat + 1))
    (Nat.ofDigitChars 10 (ds.take (lead.toNat + 1)) 0)
  rw [hv] at hle
  rw [ht, unsignedNumber_append (fun c hc => hd c (List.mem_of_mem_take hc)) (by simp [hne])
      (by rw [List.head?_take, if_neg (Nat.succ_ne_zero _)]; exact h0) (hle.trans_lt hl) rfl,
    afterWhole_point (fun c hc => hd c (List.mem_of_mem_drop hc)) (by simp; omega)
      (by rw [hv]; exact hl) hr.digit, exponentOrEnd_end hr, hv, List.length_drop]
  congr 1
  omega

theorem unsignedNumber_scientific {lead : Int} (hk : lead.natAbs < exponentLimit)
    (hd : IsDigits ds) (hne : ds ≠ []) (h0 : ds.head? ≠ some '0')
    (hl : Nat.ofDigitChars 10 ds 0 < significandLimit) (hr : EndsNumber rest) :
    unsignedNumber negative (NumberStyle.scientificText ds lead ++ rest) =
      finishFloat negative (Nat.ofDigitChars 10 ds 0) (lead + 1 - ds.length) rest := by
  have he : startsWithDigit (NumberStyle.exponentText lead ++ rest) = false := rfl
  match ds with
  | [] => exact absurd rfl hne
  | [c] =>
    -- A single digit is written without a point.
    change unsignedNumber negative ([c] ++ NumberStyle.exponentText lead ++ rest) = _
    rw [List.append_assoc, unsignedNumber_append hd hne h0 hl he, afterWhole_exponent hk hr]
    congr 1
    rw [List.length_singleton]
    omega
  | c :: d :: ds =>
    have hv : Nat.ofDigitChars 10 (d :: ds) (Nat.ofDigitChars 10 [c] 0) =
        Nat.ofDigitChars 10 (c :: d :: ds) 0 := by
      rw [← Nat.ofDigitChars_append]
      rfl
    have hle := le_ofDigitChars (d :: ds) (Nat.ofDigitChars 10 [c] 0)
    rw [hv] at hle
    have ht : NumberStyle.scientificText (c :: d :: ds) lead ++ rest =
        [c] ++ ('.' :: (d :: ds ++ (NumberStyle.exponentText lead ++ rest))) := by
      simp [NumberStyle.scientificText]
    have hh : [c].head? ≠ some '0' := h0
    rw [ht, unsignedNumber_append (fun x hx => hd x (by simp_all)) (by simp) hh
        (hle.trans_lt hl) rfl,
      afterWhole_point (fun x hx => hd x (List.mem_cons_of_mem c hx)) (by simp)
        (by rw [hv]; exact hl) he, exponentOrEnd_exponent hk hr, hv]
    congr 1
    simp only [List.length_cons]
    omega

end

end Conformance.Reader
