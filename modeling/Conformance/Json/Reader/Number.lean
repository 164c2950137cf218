import Conformance.Json.Reader

/-!
# Reading numbers

Digits are taken into a significand as long as it stays below `2 ^ 64`. Past
that point a whole digit only raises the power of ten, and a digit of the
fraction is dropped. A number without fraction and exponent that fits 64 bits is
a whole number. Any other is the significand, rounded, times or divided by a
rounded power of ten; so it is rounded more than once, and may differ in its
last bit from the nearest number.
-/
namespace Conformance

namespace Finite

def ofRank? (negative : Bool) (rank : Nat) : Option Finite :=
  if h : rank < infiniteRank then some ⟨negative, rank, h⟩ else none

def powerRank (n : Nat) : Nat := rankOfNat (Nat.pow 10 n)

/-- Divides a magnitude by a power of ten, in steps no larger than the largest finite power. -/
def dividedRank (rank e : Nat) : Nat :=
  if e ≤ 308 then quotientRank rank (powerRank e)
  else if rank = 0 then 0
  else dividedRank (quotientRank rank (powerRank 308)) (e - 308)
termination_by e
decreasing_by omega

def ofParts? (negative : Bool) (significand : Nat) (exponent : Int) : Option Finite :=
  let rank := rankOfNat significand
  if exponent < 0 then ofRank? negative (dividedRank rank exponent.natAbs)
  else if exponent ≤ 308 then ofRank? negative (productRank rank (powerRank exponent.natAbs))
  else if rank = 0 then ofRank? negative 0
  else none

end Finite

namespace Reader

def digitValue (c : Char) : Nat := c.toNat - '0'.toNat

/-- Takes digits into a number as long as it stays below the limit. Gives the number, how many
digits it took, and the rest of the text. -/
def absorb (limit n count : Nat) : List Char → Nat × Nat × List Char
  | [] => (n, count, [])
  | c :: r =>
    if c.isDigit && n * 10 + digitValue c < limit then
      absorb limit (n * 10 + digitValue c) (count + 1) r
    else (n, count, c :: r)

def skipDigits (s : List Char) : List Char := s.dropWhile Char.isDigit

def startsWithDigit : List Char → Bool
  | c :: _ => c.isDigit
  | [] => false

def significandLimit : Nat := 0x10000000000000000

def exponentLimit : Nat := 0x80000000

def finishFloat (negative : Bool) (significand : Nat) (exponent : Int) (r : List Char) :
    Reading Json.Number :=
  match Finite.ofParts? negative significand exponent with
  | some x => .ok (.float x, r)
  | none => .error (.after .numberOutOfRange 0 r)

/-- The digits of the exponent. One that is too large to be counted makes the number zero, or puts
it out of range. -/
def exponentDigits (negative : Bool) (significand : Nat) (base : Int) (down : Bool)
    (s : List Char) : Reading Json.Number :=
  match s with
  | [] => .error (.next .endOfValue [])
  | c :: r =>
    if !c.isDigit then .error (.after .invalidNumber 1 (c :: r))
    else
      let (e, _, r) := absorb exponentLimit 0 0 (c :: r)
      if !startsWithDigit r then
        finishFloat negative significand (if down then base - e else base + e) r
      else if significand ≠ 0 ∧ !down then .error (.after .numberOutOfRange 1 r)
      else .ok (.float { Finite.zero with negative }, skipDigits r)

def exponentPart (negative : Bool) (significand : Nat) (base : Int) (s : List Char) :
    Reading Json.Number :=
  match s with
  | '-' :: r => exponentDigits negative significand base true r
  | '+' :: r => exponentDigits negative significand base false r
  | r => exponentDigits negative significand base false r

def exponentOrEnd (negative : Bool) (significand : Nat) (base : Int) (s : List Char) :
    Reading Json.Number :=
  match s with
  | 'e' :: r => exponentPart negative significand base r
  | 'E' :: r => exponentPart negative significand base r
  | r => finishFloat negative significand base r

def fractionPart (negative : Bool) (significand : Nat) (base : Int) (s : List Char) :
    Reading Json.Number :=
  match s with
  | [] => .error (.next .endOfValue [])
  | c :: r =>
    if !c.isDigit then .error (.next .invalidNumber (c :: r))
    else
      let (n, count, r) := absorb significandLimit significand 0 (c :: r)
      exponentOrEnd negative n (base - count) (skipDigits r)

def signed (negative : Bool) (n : Nat) : Int := if negative then -n else n

def wholeNumber (negative : Bool) (significand : Nat) (r : List Char) : Reading Json.Number :=
  if negative ∧ significand = 0 then .ok (.float { Finite.zero with negative }, r)
  else if h : -0x8000000000000000 ≤ signed negative significand ∧
      signed negative significand < 0x10000000000000000 then
    .ok (.integer (signed negative significand) h.1 h.2, r)
  else finishFloat negative significand 0 r

def afterWhole (negative : Bool) (significand extra : Nat) (s : List Char) :
    Reading Json.Number :=
  match s with
  | '.' :: r => fractionPart negative significand extra r
  | 'e' :: r => exponentPart negative significand extra r
  | 'E' :: r => exponentPart negative significand extra r
  | r =>
    if extra = 0 then wholeNumber negative significand r
    else finishFloat negative significand extra r

def unsignedNumber (negative : Bool) (s : List Char) : Reading Json.Number :=
  match s with
  | [] => .error (.next .endOfValue [])
  | c :: r =>
    if c = '0' then
      if startsWithDigit r then .error (.next .invalidNumber r) else afterWhole negative 0 0 r
    else if !c.isDigit then .error (.after .invalidNumber 1 (c :: r))
    else
      let (n, _, r) := absorb significandLimit 0 0 (c :: r)
      afterWhole negative n (r.takeWhile Char.isDigit).length (skipDigits r)

def startsNumber (c : Char) : Bool := c == '-' || c.isDigit

def number (c : Char) (r : List Char) : Reading Json.Number :=
  if c = '-' then unsignedNumber true r else unsignedNumber false (c :: r)

theorem length_skipDigits_le (s : List Char) : (skipDigits s).length ≤ s.length :=
  (List.dropWhile_suffix _).length_le

theorem length_absorb_le (limit n count : Nat) (s : List Char) :
    (absorb limit n count s).2.2.length ≤ s.length := by
  fun_induction absorb limit n count s with
  | case1 => exact Nat.le_refl _
  | case2 n count c r _ ih => exact Nat.le_succ_of_le ih
  | case3 => exact Nat.le_refl _

theorem absorb_zero_cons {limit : Nat} (hl : 10 ≤ limit) {c : Char} (hc : c.isDigit = true)
    (r : List Char) :
    absorb limit 0 0 (c :: r) = absorb limit (digitValue c) 1 r := by
  have h9 : c.toNat ≤ 57 := by
    simp only [Char.isDigit, Bool.and_eq_true, decide_eq_true_eq] at hc
    exact UInt32.le_iff_toNat_le.1 hc.2
  have hv : digitValue c < limit := by
    have : '0'.toNat = 48 := rfl
    unfold digitValue
    omega
  simp [absorb, hc, hv]

theorem length_finishFloat_le {negative : Bool} {m : Nat} {e : Int} {s r : List Char}
    {n : Json.Number} (h : finishFloat negative m e s = .ok (n, r)) : r.length ≤ s.length := by
  unfold finishFloat at h
  split at h
  · cases h
    exact Nat.le_refl _
  · cases h

theorem length_exponentDigits_le {negative down : Bool} {m : Nat} {e : Int} {s r : List Char}
    {n : Json.Number} (h : exponentDigits negative m e down s = .ok (n, r)) :
    r.length ≤ s.length := by
  unfold exponentDigits at h
  split at h
  · cases h
  · rename_i c t
    split at h
    · cases h
    · have ha := length_absorb_le exponentLimit 0 0 (c :: t)
      split at h
      rename_i e' _ u hu
      rw [hu] at ha
      dsimp only at ha
      split at h
      · exact Nat.le_trans (length_finishFloat_le h) ha
      · split at h
        · cases h
        · cases h
          exact Nat.le_trans (length_skipDigits_le u) ha

theorem length_exponentPart_le {negative : Bool} {m : Nat} {e : Int} {s r : List Char}
    {n : Json.Number} (h : exponentPart negative m e s = .ok (n, r)) : r.length ≤ s.length := by
  unfold exponentPart at h
  split at h
  · exact Nat.le_succ_of_le (length_exponentDigits_le h)
  · exact Nat.le_succ_of_le (length_exponentDigits_le h)
  · exact length_exponentDigits_le h

theorem length_exponentOrEnd_le {negative : Bool} {m : Nat} {e : Int} {s r : List Char}
    {n : Json.Number} (h : exponentOrEnd negative m e s = .ok (n, r)) : r.length ≤ s.length := by
  unfold exponentOrEnd at h
  split at h
  · exact Nat.le_succ_of_le (length_exponentPart_le h)
  · exact Nat.le_succ_of_le (length_exponentPart_le h)
  · exact length_finishFloat_le h

theorem length_fractionPart_le {negative : Bool} {m : Nat} {e : Int} {s r : List Char}
    {n : Json.Number} (h : fractionPart negative m e s = .ok (n, r)) : r.length ≤ s.length := by
  unfold fractionPart at h
  split at h
  · cases h
  · rename_i c t
    split at h
    · cases h
    · have ha := length_absorb_le significandLimit m 0 (c :: t)
      split at h
      rename_i _ _ u hu
      rw [hu] at ha
      dsimp only at ha
      have hd := length_skipDigits_le u
      have := length_exponentOrEnd_le h
      omega

theorem length_wholeNumber_le {negative : Bool} {m : Nat} {s r : List Char}
    {n : Json.Number} (h : wholeNumber negative m s = .ok (n, r)) : r.length ≤ s.length := by
  unfold wholeNumber at h
  split at h
  · cases h
    exact Nat.le_refl _
  · split at h
    · cases h
      exact Nat.le_refl _
    · exact length_finishFloat_le h

theorem length_afterWhole_le {negative : Bool} {m x : Nat} {s r : List Char}
    {n : Json.Number} (h : afterWhole negative m x s = .ok (n, r)) : r.length ≤ s.length := by
  unfold afterWhole at h
  split at h
  · exact Nat.le_succ_of_le (length_fractionPart_le h)
  · exact Nat.le_succ_of_le (length_exponentPart_le h)
  · exact Nat.le_succ_of_le (length_exponentPart_le h)
  · split at h
    · exact length_wholeNumber_le h
    · exact length_finishFloat_le h

theorem length_unsignedNumber_lt {negative : Bool} {s r : List Char} {n : Json.Number}
    (h : unsignedNumber negative s = .ok (n, r)) : r.length < s.length := by
  unfold unsignedNumber at h
  split at h
  · cases h
  · rename_i c t
    split at h
    · split at h
      · cases h
      · exact Nat.lt_succ_of_le (length_afterWhole_le h)
    · split at h
      · cases h
      · rename_i hc
        have hd : c.isDigit = true := by simpa using hc
        rw [absorb_zero_cons (by decide) hd] at h
        have ha := length_absorb_le significandLimit (digitValue c) 1 t
        split at h
        rename_i _ _ u hu
        rw [hu] at ha
        dsimp only at ha
        have := length_skipDigits_le u
        have := length_afterWhole_le h
        simp only [List.length_cons]
        omega

theorem length_number_le {c : Char} {s r : List Char} {n : Json.Number}
    (h : number c s = .ok (n, r)) : r.length ≤ s.length := by
  unfold number at h
  split at h
  · exact Nat.le_of_lt (length_unsignedNumber_lt h)
  · exact Nat.le_of_lt_succ (length_unsignedNumber_lt h)

end Reader
end Conformance
