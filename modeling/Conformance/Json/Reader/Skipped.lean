import Conformance.Json.Reader.Document

/-!
# Passing over a value that is not wanted

A value under a key that nobody asks for is only passed over. The brackets that
are open are kept on a stack, so nesting has no limit here. Numbers are checked
for their form alone, and a comma must be followed by another value or key.
-/
namespace Conformance.Reader

def skipSomeDigits (refused : Refusal) (s : List Char) : Except Refusal (List Char) :=
  if startsWithDigit s then .ok (skipDigits s) else .error refused

def dropSign : List Char → List Char
  | '+' :: r => r
  | '-' :: r => r
  | r => r

def skipExponent (s : List Char) : Except Refusal (List Char) :=
  skipSomeDigits (.after .invalidNumber 1 (dropSign s)) (dropSign s)

def skipExponentOrEnd (s : List Char) : Except Refusal (List Char) :=
  match s with
  | 'e' :: r => skipExponent r
  | 'E' :: r => skipExponent r
  | r => .ok r

def skipAfterWhole (s : List Char) : Except Refusal (List Char) :=
  match s with
  | '.' :: r =>
    match skipSomeDigits (.next .invalidNumber r) r with
    | .ok r => skipExponentOrEnd r
    | .error e => .error e
  | r => skipExponentOrEnd r

def skipUnsigned (s : List Char) : Except Refusal (List Char) :=
  match s with
  | '0' :: r =>
    if startsWithDigit r then .error (.next .invalidNumber r) else skipAfterWhole r
  | r =>
    match skipSomeDigits (.after .invalidNumber 1 r) r with
    | .ok r => skipAfterWhole r
    | .error e => .error e

def skipScalar (c : Char) (r : List Char) : Except Refusal (List Char) :=
  if c = 'n' then word ['u', 'l', 'l'] r
  else if c = 't' then word ['r', 'u', 'e'] r
  else if c = 'f' then word ['a', 'l', 's', 'e'] r
  else if c = '"' then (skipQuoted.run r).map (·.2)
  else if c = '-' then skipUnsigned r
  else if c.isDigit then skipUnsigned (c :: r)
  else .error (.next .valueExpected (c :: r))

def skipKey (s : List Char) : Except Refusal (List Char) :=
  match skipBlanks s with
  | [] => .error (.next .endOfObject [])
  | '"' :: r =>
    match skipQuoted.run r with
    | .error e => .error e
    | .ok (_, r) => colon r
  | r => .error (.next .keyNotString r)

theorem length_skipSomeDigits_lt {e : Refusal} {s r : List Char}
    (h : skipSomeDigits e s = .ok r) : r.length < s.length := by
  unfold skipSomeDigits at h
  split at h
  · rename_i hs
    cases h
    cases s with
    | nil => cases hs
    | cons c s =>
      have hc : c.isDigit = true := hs
      have := length_skipDigits_le s
      simp only [skipDigits, List.dropWhile_cons, hc, if_true, List.length_cons] at *
      omega
  · cases h

theorem length_dropSign_le (s : List Char) : (dropSign s).length ≤ s.length := by
  unfold dropSign
  split <;> simp

theorem length_skipExponent_le {s r : List Char} (h : skipExponent s = .ok r) :
    r.length ≤ s.length :=
  Nat.le_trans (Nat.le_of_lt (length_skipSomeDigits_lt h)) (length_dropSign_le s)

theorem length_skipExponentOrEnd_le {s r : List Char} (h : skipExponentOrEnd s = .ok r) :
    r.length ≤ s.length := by
  unfold skipExponentOrEnd at h
  split at h
  · exact Nat.le_succ_of_le (length_skipExponent_le h)
  · exact Nat.le_succ_of_le (length_skipExponent_le h)
  · cases h
    exact Nat.le_refl _

theorem length_skipAfterWhole_le {s r : List Char} (h : skipAfterWhole s = .ok r) :
    r.length ≤ s.length := by
  unfold skipAfterWhole at h
  split at h
  · split at h
    · rename_i hd
      have := length_skipSomeDigits_lt hd
      have := length_skipExponentOrEnd_le h
      simp only [List.length_cons]
      omega
    · cases h
  · exact length_skipExponentOrEnd_le h

theorem length_skipUnsigned_lt {s r : List Char} (h : skipUnsigned s = .ok r) :
    r.length < s.length := by
  unfold skipUnsigned at h
  split at h
  · split at h
    · cases h
    · exact Nat.lt_succ_of_le (length_skipAfterWhole_le h)
  · split at h
    · rename_i hd
      have := length_skipSomeDigits_lt hd
      have := length_skipAfterWhole_le h
      omega
    · cases h

theorem length_skipScalar_le {c : Char} {s r : List Char} (h : skipScalar c s = .ok r) :
    r.length ≤ s.length := by
  unfold skipScalar at h
  split at h
  · exact length_word_le h
  split at h
  · exact length_word_le h
  split at h
  · exact length_word_le h
  split at h
  · cases hq : skipQuoted.run s with
    | error e => rw [hq] at h; cases h
    | ok p =>
      rw [hq] at h
      cases h
      exact Nat.le_of_lt (skipQuoted.shrinks hq)
  split at h
  · exact Nat.le_of_lt (length_skipUnsigned_lt h)
  split at h
  · exact Nat.le_of_lt_succ (length_skipUnsigned_lt h)
  · cases h

theorem length_skipKey_lt {s r : List Char} (h : skipKey s = .ok r) : r.length < s.length := by
  have hs := length_skipBlanks_le s
  unfold skipKey at h
  split at h
  · cases h
  · rename_i t ht
    rw [ht, List.length_cons] at hs
    split at h
    · cases h
    · rename_i hq
      have := skipQuoted.shrinks hq
      have := length_colon_le h
      omega
  · cases h

inductive Bracket
  | square
  | curly

inductive Stage
  | value
  | opened
  | ended

def Stage.rank : Stage → Nat
  | ended => 0
  | value => 1
  | opened => 2

def skipFrom (stage : Stage) (stack : List Bracket) (s : List Char) :
    Except Refusal (List Char) :=
  match stage, stack, _hs : skipBlanks s with
  | .value, _, [] => .error (.next .endOfValue [])
  | .value, stack, '[' :: r => skipFrom .opened (.square :: stack) r
  | .value, stack, '{' :: r => skipFrom .opened (.curly :: stack) r
  | .value, stack, c :: r =>
    match _h : skipScalar c r with
    | .error e => .error e
    | .ok r => skipFrom .ended stack r
  | .ended, [], _ => .ok s
  | .opened, [], _ => .ok s
  | _, .square :: _, [] => .error (.next .endOfList [])
  | _, .square :: stack, ']' :: r => skipFrom .ended stack r
  | .ended, .square :: stack, ',' :: r => skipFrom .value (.square :: stack) r
  | .ended, .square :: _, r => .error (.next .listSeparatorExpected r)
  | .opened, .square :: stack, r => skipFrom .value (.square :: stack) r
  | _, .curly :: _, [] => .error (.next .endOfObject [])
  | _, .curly :: stack, '}' :: r => skipFrom .ended stack r
  | .ended, .curly :: stack, ',' :: r =>
    match _h : skipKey r with
    | .error e => .error e
    | .ok r => skipFrom .value (.curly :: stack) r
  | .ended, .curly :: _, r => .error (.next .objectSeparatorExpected r)
  | .opened, .curly :: stack, r =>
    match _h : skipKey r with
    | .error e => .error e
    | .ok r => skipFrom .value (.curly :: stack) r
termination_by (s.length, stage.rank)
decreasing_by
  all_goals
    have hle := length_skipBlanks_le s
    rw [_hs] at hle
    simp only [Prod.lex_def, List.length_cons, Stage.rank] at *
    try have := length_skipScalar_le _h
    try have := length_skipKey_lt _h
    omega

theorem length_skipFrom {stage : Stage} {stack : List Bracket} {s r : List Char}
    (h : skipFrom stage stack s = .ok r) :
    r.length ≤ s.length ∧ (stage = .value → r.length < s.length) := by
  fun_induction skipFrom stage stack s <;>
    grind [→ length_skipScalar_le, → length_skipKey_lt, length_skipBlanks_le]

def skipped : Reader Unit where
  run s :=
    match skipFrom .value [] s with
    | .ok r => .ok ((), r)
    | .error e => .error e
  shrinks := by
    intro s u r h
    split at h
    · rename_i hr
      cases h
      exact (length_skipFrom hr).2 rfl
    · cases h

end Conformance.Reader
