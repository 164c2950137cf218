import Conformance.Json.Reader.Number
import Conformance.Json.Reader.Quoted

/-!
# Reading documents

`Reader.document` reads any JSON document. Its argument says how many containers
may still be opened inside one another; opening one more is refused. Scalars are
read by `scalar?`, which the typed readers share: they read the scalar that
stands there, and complain about it when it is not the wanted one.
-/
namespace Conformance.Reader

variable {α σ : Type}

def word : List Char → List Char → Except Refusal (List Char)
  | [], r => .ok r
  | _ :: _, [] => .error (.next .endOfValue [])
  | w :: ws, c :: r => if c = w then word ws r else .error (.after .wordExpected 1 (c :: r))

theorem length_word_le {ws s r : List Char} (h : word ws s = .ok r) : r.length ≤ s.length := by
  fun_induction word ws s with
  | case1 => cases h; exact Nat.le_refl _
  | case2 => cases h
  | case3 ws c t ih => exact Nat.le_succ_of_le (ih h)
  | case4 => cases h

def wordFor (a : α) (ws : List Char) (r : List Char) : Reading α :=
  match word ws r with
  | .ok r => .ok (a, r)
  | .error e => .error e

theorem length_wordFor_le {a b : α} {ws s r : List Char} (h : wordFor a ws s = .ok (b, r)) :
    r.length ≤ s.length := by
  unfold wordFor at h
  split at h
  · rename_i hw
    cases h
    exact length_word_le hw
  · cases h

def scalar? (c : Char) (r : List Char) : Option (Reading Json) :=
  if c = 'n' then some (wordFor .null ['u', 'l', 'l'] r)
  else if c = 't' then some (wordFor (.boolean true) ['r', 'u', 'e'] r)
  else if c = 'f' then some (wordFor (.boolean false) ['a', 'l', 's', 'e'] r)
  else if c = '"' then
    some (match quoted.run r with
      | .ok (s, r) => .ok (.string s, r)
      | .error e => .error e)
  else if startsNumber c then
    some (match number c r with
      | .ok (n, r) => .ok (.number n, r)
      | .error e => .error e)
  else none

theorem length_scalar?_le {c : Char} {s r : List Char} {j : Json}
    (h : scalar? c s = some (.ok (j, r))) : r.length ≤ s.length := by
  unfold scalar? at h
  split at h
  · exact length_wordFor_le (Option.some.inj h)
  split at h
  · exact length_wordFor_le (Option.some.inj h)
  split at h
  · exact length_wordFor_le (Option.some.inj h)
  split at h
  · have h := Option.some.inj h
    split at h
    · rename_i hq
      cases h
      exact Nat.le_of_lt (quoted.shrinks hq)
    · cases h
  split at h
  · have h := Option.some.inj h
    split at h
    · rename_i hn
      cases h
      exact length_number_le hn
    · cases h
  · cases h

def enter (body : Option (Reader α)) (c : Char) (r : List Char) : Reading α :=
  match body with
  | none => .error (.next .tooDeep (c :: r))
  | some body => body.run r

theorem length_enter_le {body : Option (Reader α)} {c : Char} {a : α} {s r : List Char}
    (h : enter body c s = .ok (a, r)) : r.length ≤ s.length := by
  unfold enter at h
  split at h
  · cases h
  · rename_i body
    exact Nat.le_of_lt (body.shrinks h)

def items (inner : Reader Json) : Reader Json := (listOf inner).map .array

def members (inner : Reader Json) : Reader Json :=
  entries quoted (fun ms k => .ok (inner.map (Entries.insert ms k))) [] (fun ms => .ok (.object ms))

def documentWith (inner : Option (Reader Json)) : Reader Json :=
  begin
    (fun c r =>
      match scalar? c r with
      | some reading => reading
      | none =>
        if c = '[' then enter (inner.map items) c r
        else if c = '{' then enter (inner.map members) c r
        else .error (.next .valueExpected (c :: r)))
    (by
      intro c s j r h
      split at h
      · rename_i hs
        exact length_scalar?_le (h ▸ hs)
      · split at h
        · exact length_enter_le h
        · split at h
          · exact length_enter_le h
          · cases h)

def document : Nat → Reader Json
  | 0 => documentWith none
  | depth + 1 => documentWith (some (document depth))

def depthLimit : Nat := 127

def atEnd (s : List Char) : Except Refusal Unit :=
  match skipBlanks s with
  | [] => .ok ()
  | r => .error (.next .trailingCharacters r)

def runToEnd (reader : Reader α) (s : List Char) : Except Refusal α :=
  match reader.run s with
  | .error e => .error e
  | .ok (a, r) =>
    match atEnd r with
    | .error e => .error e
    | .ok () => .ok a

end Conformance.Reader

namespace Conformance

def Json.ofText (s : String) : Except Refusal Json :=
  (Reader.document Reader.depthLimit).runToEnd s.toList

end Conformance
