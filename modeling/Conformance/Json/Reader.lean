import Conformance.Json.Refusal

/-!
# Readers of JSON text

A reader takes a value off the front of a text and leaves the rest. What it
leaves is shorter than what it was given, and this law is part of the reader, so
that the loops over list elements and object entries end. The loops carry a
state: `Reader.elements` asks a step function for the reader of the next
element, `Reader.entries` asks for the reader of the value under a key. Both
read up to and with the closing bracket, also when they refuse, because a
complaint without a place is placed where the container has been left.
-/
namespace Conformance

def isBlank (c : Char) : Bool := c == ' ' || c == '\n' || c == '\t' || c == '\r'

def skipBlanks (s : List Char) : List Char := s.dropWhile isBlank

theorem length_skipBlanks_le (s : List Char) : (skipBlanks s).length ≤ s.length :=
  (List.dropWhile_suffix _).length_le

abbrev Reading (α : Type) := Except Refusal (α × List Char)

structure Reader (α : Type) where
  run : List Char → Reading α
  shrinks : ∀ {s a r}, run s = .ok (a, r) → r.length < s.length

namespace Reader

variable {α β σ : Type}

def map (f : α → β) (reader : Reader α) : Reader β where
  run s :=
    match reader.run s with
    | .ok (a, r) => .ok (f a, r)
    | .error e => .error e
  shrinks := by
    intro s b r h
    split at h
    · rename_i a r' h'
      cases h
      exact reader.shrinks h'
    · cases h

def begin (f : Char → List Char → Reading α)
    (law : ∀ {c s a r}, f c s = .ok (a, r) → r.length ≤ s.length) : Reader α where
  run s :=
    match skipBlanks s with
    | [] => .error (.next .endOfValue [])
    | c :: cs => f c cs
  shrinks := by
    intro s a r h
    have hs := length_skipBlanks_le s
    split at h
    · cases h
    · rename_i c cs hc
      have := law h
      rw [hc, List.length_cons] at hs
      omega

def nextElement (first : Bool) (s : List Char) : Except Refusal (Option (List Char)) :=
  match skipBlanks s with
  | [] => .error (.next .endOfList [])
  | ']' :: _ => .ok none
  | c :: r =>
    if first then .ok (some (c :: r))
    else if c = ',' then
      match skipBlanks r with
      | [] => .error (.next .endOfValue [])
      | ']' :: r => .error (.next .trailingComma (']' :: r))
      | r => .ok (some r)
    else .error (.next .listSeparatorExpected (c :: r))

theorem length_nextElement_le {first : Bool} {s t : List Char}
    (h : nextElement first s = .ok (some t)) : t.length ≤ s.length := by
  have hs := length_skipBlanks_le s
  unfold nextElement at h
  split at h
  · cases h
  · cases h
  · rename_i c r _ hc
    rw [hc] at hs
    split at h
    · cases h
      exact hs
    · split at h
      · have hr := length_skipBlanks_le r
        simp only [List.length_cons] at hs
        split at h
        · cases h
        · cases h
        · cases h
          omega
      · cases h

def closeList (s : List Char) : Option Flaw × List Char :=
  match skipBlanks s with
  | [] => (some .endOfList, [])
  | ']' :: r => (none, r)
  | ',' :: r =>
    match skipBlanks r with
    | ']' :: r => (some .trailingComma, ']' :: r)
    | r => (some .trailingCharacters, r)
  | r => (some .trailingCharacters, r)

def closeObject (s : List Char) : Option Flaw × List Char :=
  match skipBlanks s with
  | [] => (some .endOfObject, [])
  | '}' :: r => (none, r)
  | ',' :: r => (some .trailingComma, ',' :: r)
  | r => (some .trailingCharacters, r)

theorem length_closeList_lt {s r : List Char} (h : closeList s = (none, r)) :
    r.length < s.length := by
  have hs := length_skipBlanks_le s
  unfold closeList at h
  split at h
  · cases h
  · rename_i r' hr
    cases h
    rw [hr, List.length_cons] at hs
    omega
  · split at h <;> cases h
  · cases h

theorem length_closeObject_lt {s r : List Char} (h : closeObject s = (none, r)) :
    r.length < s.length := by
  have hs := length_skipBlanks_le s
  unfold closeObject at h
  split at h
  · cases h
  · rename_i r' hr
    cases h
    rw [hr, List.length_cons] at hs
    omega
  · cases h
  · cases h

/-- Places a pending complaint where the container around it has been left. -/
def settle (close : List Char → Option Flaw × List Char) (e : Refusal) : Refusal :=
  match e.place with
  | .fixed _ => e
  | .pending rest => { e with place := .fixed (byteLength (close rest).2) }

def conclude (close : List Char → Option Flaw × List Char) (finish : σ → Except Complaint α)
    (gathered : Reading σ) : Reading α :=
  match gathered with
  | .error e => .error (settle close e)
  | .ok (state, s) =>
    match finish state, close s with
    | .error c, _ => .error (settle close (.hold c s))
    | .ok a, (none, r) => .ok (a, r)
    | .ok _, (some f, r) => .error (.next f r)

theorem length_conclude_lt {close : List Char → Option Flaw × List Char}
    (hclose : ∀ {s r}, close s = (none, r) → r.length < s.length)
    {finish : σ → Except Complaint α} {state : σ} {s : List Char} {a : α} {r : List Char}
    (h : conclude close finish (.ok (state, s)) = .ok (a, r)) : r.length < s.length := by
  unfold conclude at h
  dsimp only at h
  split at h
  · cases h
  · rename_i a' r' hf hc
    cases h
    exact hclose hc
  · cases h

/-- Reads elements up to the closing bracket, or until no more are wanted. `i` elements have been
read before. -/
def gatherElements (step : σ → Option (Reader σ)) (i : Nat) (state : σ) (s : List Char) :
    Reading σ :=
  match step state with
  | none => .ok (state, s)
  | some element =>
    match _hn : nextElement (i == 0) s with
    | .error e => .error e
    | .ok none => .ok (state, s)
    | .ok (some t) =>
      match _he : element.run t with
      | .error e => .error (e.below (.index i))
      | .ok (state, r) => gatherElements step (i + 1) state r
termination_by s.length
decreasing_by
  have := length_nextElement_le _hn
  have := element.shrinks _he
  omega

theorem length_gatherElements_le {step : σ → Option (Reader σ)} {i : Nat} {state state' : σ}
    {s r : List Char} (h : gatherElements step i state s = .ok (state', r)) :
    r.length ≤ s.length := by
  fun_induction gatherElements step i state s with
  | case1 => cases h; exact Nat.le_refl _
  | case2 => cases h
  | case3 => cases h; exact Nat.le_refl _
  | case4 => cases h
  | case5 i state s element _ t hn state'' r' he ih =>
    have := length_nextElement_le hn
    have := element.shrinks he
    have := ih h
    omega

def elements (step : σ → Option (Reader σ)) (init : σ) (finish : σ → Except Complaint α) :
    Reader α where
  run s := conclude closeList finish (gatherElements step 0 init s)
  shrinks := by
    intro s a r h
    cases hg : gatherElements step 0 init s with
    | error e => rw [hg] at h; cases h
    | ok p =>
      rw [hg] at h
      have := length_conclude_lt length_closeList_lt h
      have := length_gatherElements_le hg
      omega

def listOf (element : Reader α) : Reader (List α) :=
  elements (fun read => some (element.map (· :: read))) [] (fun read => .ok read.reverse)

def nextKey (first : Bool) (s : List Char) : Except Refusal (Option (List Char)) :=
  match skipBlanks s with
  | [] => .error (.next .endOfObject [])
  | '}' :: _ => .ok none
  | c :: r =>
    if first then
      if c = '"' then .ok (some r) else .error (.next .keyNotString (c :: r))
    else if c = ',' then
      match skipBlanks r with
      | [] => .error (.next .endOfValue [])
      | '"' :: r => .ok (some r)
      | '}' :: r => .error (.next .trailingComma ('}' :: r))
      | r => .error (.next .keyNotString r)
    else .error (.next .objectSeparatorExpected (c :: r))

theorem length_nextKey_le {first : Bool} {s t : List Char}
    (h : nextKey first s = .ok (some t)) : t.length ≤ s.length := by
  have hs := length_skipBlanks_le s
  unfold nextKey at h
  split at h
  · cases h
  · cases h
  · rename_i c r _ hc
    rw [hc, List.length_cons] at hs
    split at h
    · split at h
      · cases h
        omega
      · cases h
    · split at h
      · have hr := length_skipBlanks_le r
        split at h
        · cases h
        · rename_i r' hr'
          cases h
          rw [hr', List.length_cons] at hr
          omega
        · cases h
        · cases h
      · cases h

def colon (s : List Char) : Except Refusal (List Char) :=
  match skipBlanks s with
  | [] => .error (.next .endOfObject [])
  | ':' :: r => .ok r
  | r => .error (.next .colonExpected r)

theorem length_colon_le {s t : List Char} (h : colon s = .ok t) : t.length ≤ s.length := by
  have hs := length_skipBlanks_le s
  unfold colon at h
  split at h
  · cases h
  · rename_i r hr
    cases h
    rw [hr, List.length_cons] at hs
    omega
  · cases h

def gatherEntries (key : Reader String)
    (entry : σ → String → Except Rejection (Reader σ)) (first : Bool) (state : σ)
    (s : List Char) : Reading σ :=
  match _hn : nextKey first s with
  | .error e => .error (e.below .unknown)
  | .ok none => .ok (state, s)
  | .ok (some t) =>
    match _hk : key.run t with
    | .error e => .error (e.below .unknown)
    | .ok (name, t') =>
      match entry state name with
      | .error r => .error ⟨r.address, .complaint r.complaint, .pending t'⟩
      | .ok value =>
        match _hc : colon t' with
        | .error e => .error e
        | .ok t'' =>
          match _hv : value.run t'' with
          | .error e => .error (e.below (.key name))
          | .ok (state, r) => gatherEntries key entry false state r
termination_by s.length
decreasing_by
  have := length_nextKey_le _hn
  have := key.shrinks _hk
  have := length_colon_le _hc
  have := value.shrinks _hv
  omega

theorem length_gatherEntries_le {key : Reader String}
    {entry : σ → String → Except Rejection (Reader σ)} {first : Bool} {state state' : σ}
    {s r : List Char} (h : gatherEntries key entry first state s = .ok (state', r)) :
    r.length ≤ s.length := by
  fun_induction gatherEntries key entry first state s with
  | case1 => cases h
  | case2 => cases h; exact Nat.le_refl _
  | case3 => cases h
  | case4 => cases h
  | case5 => cases h
  | case6 => cases h
  | case7 first state s t hn name t' hk value _ t'' hc state'' r' hv ih =>
    have := length_nextKey_le hn
    have := key.shrinks hk
    have := length_colon_le hc
    have := value.shrinks hv
    have := ih h
    omega

def entries (key : Reader String) (entry : σ → String → Except Rejection (Reader σ)) (init : σ)
    (finish : σ → Except Complaint α) : Reader α where
  run s := conclude closeObject finish (gatherEntries key entry true init s)
  shrinks := by
    intro s a r h
    cases hg : gatherEntries key entry true init s with
    | error e => rw [hg] at h; cases h
    | ok p =>
      rw [hg] at h
      have := length_conclude_lt length_closeObject_lt h
      have := length_gatherEntries_le hg
      omega

end Reader
end Conformance
