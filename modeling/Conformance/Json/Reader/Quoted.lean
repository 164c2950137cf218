import Conformance.Json.Reader

/-!
# Reading strings

What stands between the quotes of a JSON string. A character outside the basic
plane may be written as a leading and a trailing surrogate, each with an escape
of its own; a surrogate without its partner is refused. `skipQuoted` passes over
a string without making its value, and so does not pair surrogates.
-/
namespace Conformance.Reader

def hexValue? (c : Char) : Option Nat :=
  if c.isDigit then some (c.toNat - '0'.toNat)
  else if 'a' ≤ c ∧ c ≤ 'f' then some (c.toNat - 'a'.toNat + 10)
  else if 'A' ≤ c ∧ c ≤ 'F' then some (c.toNat - 'A'.toNat + 10)
  else none

def fourHex? : List Char → Option (Nat × List Char)
  | a :: b :: c :: d :: r => do
    let a ← hexValue? a
    let b ← hexValue? b
    let c ← hexValue? c
    let d ← hexValue? d
    return (((a * 16 + b) * 16 + c) * 16 + d, r)
  | _ => none

/-- Reads four hexadecimal digits. Anything else that is four bytes long is passed over before it
is refused, and a shorter text whole. -/
def fourHex (s : List Char) : Reading Nat :=
  match fourHex? s with
  | some p => .ok p
  | none =>
    if byteLength s < 4 then .error (.next .endOfString []) else .error (.after .invalidEscape 4 s)

def isLeading (n : Nat) : Bool := 0xD800 ≤ n && n ≤ 0xDBFF

def isTrailing (n : Nat) : Bool := 0xDC00 ≤ n && n ≤ 0xDFFF

def unicodeEscape (s : List Char) : Reading Char :=
  match fourHex s with
  | .error e => .error e
  | .ok (n, r) =>
    if isTrailing n then .error (.after .loneSurrogate 0 r)
    else if !isLeading n then .ok (Char.ofNat n, r)
    else
      match r with
      | '\\' :: 'u' :: r =>
        match fourHex r with
        | .error e => .error e
        | .ok (m, r) =>
          if isTrailing m then .ok (Char.ofNat ((n - 0xD800) * 0x400 + (m - 0xDC00) + 0x10000), r)
          else .error (.after .loneSurrogate 0 r)
      | [] | ['\\'] => .error (.next .endOfString [])
      | '\\' :: r => .error (.after .surrogateCut 1 r)
      | r => .error (.after .surrogateCut 1 r)

def escape (s : List Char) : Reading Char :=
  match s with
  | [] => .error (.next .endOfString [])
  | '"' :: r => .ok ('"', r)
  | '\\' :: r => .ok ('\\', r)
  | '/' :: r => .ok ('/', r)
  | 'b' :: r => .ok ('\x08', r)
  | 'f' :: r => .ok ('\x0c', r)
  | 'n' :: r => .ok ('\n', r)
  | 'r' :: r => .ok ('\r', r)
  | 't' :: r => .ok ('\t', r)
  | 'u' :: r => unicodeEscape r
  | r => .error (.after .invalidEscape 1 r)

theorem length_fourHex_lt {s r : List Char} {n : Nat} (h : fourHex s = .ok (n, r)) :
    r.length < s.length := by
  unfold fourHex at h
  split at h
  · rename_i p hp
    cases h
    unfold fourHex? at hp
    split at hp
    · simp only [Option.bind_eq_bind, Option.bind_eq_some_iff, Option.pure_def,
        Option.some.injEq, Prod.mk.injEq] at hp
      obtain ⟨_, _, _, _, _, _, _, _, _, rfl⟩ := hp
      simp only [List.length_cons]
      omega
    · cases hp
  · split at h <;> cases h

theorem length_unicodeEscape_lt {s r : List Char} {c : Char} (h : unicodeEscape s = .ok (c, r)) :
    r.length < s.length := by
  unfold unicodeEscape at h
  split at h
  · cases h
  · rename_i n t hn
    have ht := length_fourHex_lt hn
    split at h
    · cases h
    · split at h
      · injection h with h
        injection h with _ h; subst h
        omega
      · split at h
        · rename_i t'
          split at h
          · cases h
          · rename_i m t'' hm
            have ht'' := length_fourHex_lt hm
            split at h
            · injection h with h
              injection h with _ h; subst h
              simp only [List.length_cons] at ht
              omega
            · cases h
        · cases h
        · cases h
        · cases h
        · cases h

theorem length_escape_lt {s r : List Char} {c : Char} (h : escape s = .ok (c, r)) :
    r.length < s.length := by
  unfold escape at h
  split at h
  case h_10 t =>
    have := length_unicodeEscape_lt h
    simp only [List.length_cons]
    omega
  all_goals
    cases h
    try exact Nat.lt_succ_self _

def quotedFrom (read : List Char) (s : List Char) : Reading String :=
  match s with
  | [] => .error (.next .endOfString [])
  | '"' :: r => .ok (String.ofList read.reverse, r)
  | '\\' :: r =>
    match _h : escape r with
    | .error e => .error e
    | .ok (c, r) => quotedFrom (c :: read) r
  | c :: r =>
    if c.toNat < 0x20 then .error (.after .controlCharacter 1 (c :: r))
    else quotedFrom (c :: read) r
termination_by s.length
decreasing_by
  · have := length_escape_lt _h
    simp only [List.length_cons]
    omega
  · simp

theorem length_quotedFrom_lt {read s r : List Char} {a : String}
    (h : quotedFrom read s = .ok (a, r)) : r.length < s.length := by
  fun_induction quotedFrom read s with
  | case1 => cases h
  | case2 => cases h; exact Nat.lt_succ_self _
  | case3 => cases h
  | case4 read r' c r'' he ih =>
    have := length_escape_lt he
    have := ih h
    simp only [List.length_cons]
    omega
  | case5 => cases h
  | case6 read c r' _ _ _ ih =>
    have := ih h
    simp only [List.length_cons]
    omega

def quoted : Reader String where
  run := quotedFrom []
  shrinks := length_quotedFrom_lt

def skipEscape (s : List Char) : Reading Unit :=
  match s with
  | [] => .error (.next .endOfString [])
  | 'u' :: r =>
    match fourHex r with
    | .error e => .error e
    | .ok (_, r) => .ok ((), r)
  | c :: r =>
    if c ∈ ['"', '\\', '/', 'b', 'f', 'n', 'r', 't'] then .ok ((), r)
    else .error (.after .invalidEscape 1 (c :: r))

theorem length_skipEscape_lt {s r : List Char} {u : Unit} (h : skipEscape s = .ok (u, r)) :
    r.length < s.length := by
  unfold skipEscape at h
  split at h
  · cases h
  · split at h
    · cases h
    · rename_i hn
      cases h
      have := length_fourHex_lt hn
      simp only [List.length_cons]
      omega
  · split at h
    · cases h
      exact Nat.lt_succ_self _
    · cases h

def skipQuotedFrom (s : List Char) : Reading Unit :=
  match s with
  | [] => .error (.next .endOfString [])
  | '"' :: r => .ok ((), r)
  | '\\' :: r =>
    match _h : skipEscape r with
    | .error e => .error e
    | .ok (_, r) => skipQuotedFrom r
  | c :: r =>
    if c.toNat < 0x20 then .error (.after .controlCharacter 0 (c :: r)) else skipQuotedFrom r
termination_by s.length
decreasing_by
  · have := length_skipEscape_lt _h
    simp only [List.length_cons]
    omega
  · simp

theorem length_skipQuotedFrom_lt {s r : List Char} {u : Unit}
    (h : skipQuotedFrom s = .ok (u, r)) : r.length < s.length := by
  fun_induction skipQuotedFrom s with
  | case1 => cases h
  | case2 => cases h; exact Nat.lt_succ_self _
  | case3 => cases h
  | case4 r' u' r'' he ih =>
    have := length_skipEscape_lt he
    have := ih h
    simp only [List.length_cons]
    omega
  | case5 => cases h
  | case6 c r' _ _ _ ih =>
    have := ih h
    simp only [List.length_cons]
    omega

def skipQuoted : Reader Unit where
  run := skipQuotedFrom
  shrinks := length_skipQuotedFrom_lt

end Conformance.Reader
