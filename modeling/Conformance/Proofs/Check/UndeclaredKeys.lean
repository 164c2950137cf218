import Conformance.Proofs.Check.EqualValues

/-!
# Undeclared keys

A check looks into an object under the keys that records declare and nowhere
else. `Value.stripped` takes all other members out of the objects in a value, at
every depth; a check gives the same for what is left. So two values of which the
same is left are checked alike, whatever stands under the keys that no record of
the shape declares. A key that one record declares is kept in every object, also
where another record looks at it that does not declare the key.
-/
namespace Conformance

namespace Value

mutual
/-- What is left of a value when the members with other keys are taken out of its objects. -/
def stripped (keys : List String) : Value → Value
  | array items => array (strippedItems keys items)
  | object members => object (strippedMembers keys members)
  | v => v
def strippedItems (keys : List String) : List Value → List Value
  | [] => []
  | v :: vs => stripped keys v :: strippedItems keys vs
def strippedMembers (keys : List String) : List (String × Value) → List (String × Value)
  | [] => []
  | (k, v) :: ms =>
    if k ∈ keys then (k, stripped keys v) :: strippedMembers keys ms else strippedMembers keys ms
end

section
variable {keys : List String} {v : Value} {members : Entries Value} {key : String}

theorem kind_stripped : (v.stripped keys).kind = v.kind := by
  cases v <;> rfl

theorem strippedItems_eq (items : List Value) :
    strippedItems keys items = items.map (stripped keys) := by
  induction items with
  | nil => rfl
  | cons v vs ih => rw [strippedItems, ih, List.map_cons]

theorem items?_stripped :
    (v.stripped keys).items? = v.items?.map fun items => items.map (stripped keys) := by
  cases v <;> simp only [stripped, items?, strippedItems_eq, Option.map_some, Option.map_none]

theorem members?_stripped :
    (v.stripped keys).members? = v.members?.map (strippedMembers keys) := by
  cases v <;> simp only [stripped, members?, Option.map_some, Option.map_none]

theorem get?_strippedMembers (h : key ∈ keys) :
    Entries.get? (strippedMembers keys members) key = (members.get? key).map (stripped keys) := by
  induction members with
  | nil => rfl
  | cons m members ih =>
    rw [strippedMembers, Entries.get?]
    by_cases hk : m.1 = key
    · rw [if_pos (hk ▸ h), if_pos hk, Entries.get?, if_pos hk, Option.map_some]
    · rw [if_neg hk, ← ih]
      by_cases hm : m.1 ∈ keys
      · rw [if_pos hm, Entries.get?, if_neg hk]
      · rw [if_neg hm]

theorem keys_strippedMembers :
    Entries.keys (strippedMembers keys members) = members.keys.filter (· ∈ keys) := by
  induction members with
  | nil => rfl
  | cons m members ih =>
    simp only [Entries.keys] at ih ⊢
    rw [strippedMembers, List.map_cons, List.filter_cons]
    by_cases hm : m.1 ∈ keys
    · simp only [hm, if_true, decide_true, List.map_cons, ih]
    · simp only [hm, if_false, decide_false, Bool.false_eq_true, ih]

theorem exists_of_mem_strippedMembers {m : String × Value}
    (h : m ∈ strippedMembers keys members) : ∃ n ∈ members, m.2 = n.2.stripped keys := by
  induction members with
  | nil => exact absurd h List.not_mem_nil
  | cons n members ih =>
    rw [strippedMembers] at h
    have hrest (h : m ∈ strippedMembers keys members) :
        ∃ p ∈ n :: members, m.2 = p.2.stripped keys := by
      obtain ⟨p, hp, he⟩ := ih h
      exact ⟨p, List.mem_cons_of_mem n hp, he⟩
    split at h
    · rcases List.mem_cons.1 h with rfl | h
      · exact ⟨n, List.mem_cons_self, rfl⟩
      · exact hrest h
    · exact hrest h

theorem wellFormed_stripped (h : v.WellFormed) : (v.stripped keys).WellFormed := by
  induction v with
  | array items ih =>
    rw [stripped, strippedItems_eq]
    apply wellFormedItems_iff.2
    intro w hw
    obtain ⟨v, hv, rfl⟩ := List.mem_map.1 hw
    exact ih v hv (wellFormedItems_iff.1 h v hv)
  | object members ih =>
    rw [stripped]
    refine ⟨?_, wellFormedMembers_iff.2 ?_⟩
    · rw [Entries.Distinct, keys_strippedMembers]
      exact h.1.filter _
    · intro m hm
      obtain ⟨n, hn, he⟩ := exists_of_mem_strippedMembers hm
      rw [he]
      exact ih n hn (wellFormedMembers_iff.1 h.2 n hn)
  | _ => exact h

end

end Value

variable {keys : List String}

theorem Literal.matches_stripped (lit : Literal) (v : Value) :
    lit.matches (v.stripped keys) = lit.matches v := by
  cases v <;> cases lit <;> rfl

theorem Value.alike_stripped : Alike (· ∈ keys) fun v w => v = w.stripped keys where
  kind := by
    rintro v w rfl
    exact kind_stripped
  literal := by
    rintro v w rfl lit
    exact lit.matches_stripped w
  items := by
    rintro v w rfl
    rw [items?_stripped]
    cases w.items? with
    | none => exact .none
    | some items =>
      exact .some (List.forall₂_map_left_iff.2 (List.forall₂_same.2 fun _ _ => rfl))
  members := by
    rintro v w rfl
    rw [members?_stripped]
    cases w.members? with
    | none => exact .none
    | some members =>
      refine .some fun key hk => ?_
      rw [get?_strippedMembers hk]
      cases members.get? key with
      | none => exact .none
      | some v => exact .some rfl

namespace Shape

theorem check_stripped (t : Shape) (v : Value) :
    t.check (v.stripped t.declaredKeys) = t.check v :=
  check_congr Value.alike_stripped t (fun _ hk => hk) rfl

/-- Two values that become the same when the keys which no record of the shape declares are taken
out of every object in them, or become equal as numbers and orders of members go, are both
accepted or both rejected for the same fault. -/
theorem accept_ignores_undeclared_keys (t : Shape) (v w : Value)
    (h : v.stripped t.declaredKeys = w.stripped t.declaredKeys ∨
      v.WellFormed ∧ (v.stripped t.declaredKeys).equals (w.stripped t.declaredKeys) = true) :
    (t.accept v = .ok v ∧ t.accept w = .ok w) ∨
      ∃ e, t.accept v = .error e ∧ t.accept w = .error e := by
  have hleft : t.check (v.stripped t.declaredKeys) = t.check (w.stripped t.declaredKeys) := by
    rcases h with h | ⟨hv, h⟩
    · rw [h]
    · exact check_of_equals t (Value.wellFormed_stripped hv) h
  have hc : t.check v = t.check w := by
    rw [← check_stripped t v, hleft, check_stripped t w]
  rw [accept_eq_map_check, accept_eq_map_check, ← hc]
  cases t.check v with
  | ok _ => exact .inl ⟨rfl, rfl⟩
  | error e => exact .inr ⟨e, rfl, rfl⟩

theorem accept_ignores_undeclared_notes :
    let v : Value := .array [.object [("note", .number .nan), ("a", .string "x"), ("b", .null)],
      .object [("deep", .object [("note", .null)])]]
    let w : Value := .array [.object [("a", .string "x"), ("b", .null), ("extra", .undefined)],
      .object []]
    let t : Shape := .tuple [.union [.record [⟨"b", .primitive .string, true⟩],
      .record [⟨"a", .primitive .string, false⟩]], .other .any]
    (v.stripped t.declaredKeys = w.stripped t.declaredKeys ∨
      v.WellFormed ∧ (v.stripped t.declaredKeys).equals (w.stripped t.declaredKeys) = true) ∧
    ((t.accept v = .ok v ∧ t.accept w = .ok w) ∨
      ∃ e, t.accept v = .error e ∧ t.accept w = .error e) := by
  intro v w t
  have h : v.stripped t.declaredKeys = w.stripped t.declaredKeys := rfl
  exact ⟨.inl h, accept_ignores_undeclared_keys t v w (.inl h)⟩

end Shape
end Conformance
