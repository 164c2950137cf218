import Conformance.Proofs.Check.Conforms

/-!
# Which fault is reported

A value may fail a shape in many places at once, and one fault is reported.
`Value.Descends` goes from a value and a shape down to a part of the value and
the part of the shape that it stands under, through items, positions and
declared fields that are present, past none that fails; it does not go into the
members of a union. `Value.LocalFault` says what is wrong at one place without a
look further down. The main statement is that the fault reported is the local
fault of a place so reached.
-/
namespace Conformance

def Field.MetBy (members : Entries Value) (f : Field Shape) : Prop :=
  (f.key ∉ members.keys → f.optional = true) ∧
    ∀ v, members.get? f.key = some v → v.Conforms f.value

namespace Value

/-- `Descends v t u s`: the part `u` of `v` stands under the part `s` of `t`, and whatever comes
before it on the way conforms. -/
inductive Descends : Value → Shape → Value → Shape → Prop
  | here (v : Value) (t : Shape) : Descends v t v t
  | item {items : List Value} {element : Shape} {i : Nat} {v u : Value} {s : Shape}
      (hv : items[i]? = some v)
      (before : ∀ j < i, ∀ w, items[j]? = some w → w.Conforms element)
      (below : Descends v element u s) : Descends (.array items) (.array element) u s
  | position {items : List Value} {elements : List Shape} {i : Nat} {v u : Value} {t s : Shape}
      (length : items.length = elements.length)
      (hv : items[i]? = some v) (ht : elements[i]? = some t)
      (before : ∀ j < i, ∀ w r, items[j]? = some w → elements[j]? = some r → w.Conforms r)
      (below : Descends v t u s) : Descends (.array items) (.tuple elements) u s
  | field {members : Entries Value} {fields : List (Field Shape)} {i : Nat} {f : Field Shape}
      {v u : Value} {s : Shape}
      (hf : fields[i]? = some f) (hv : members.get? f.key = some v)
      (before : ∀ j < i, ∀ g, fields[j]? = some g → g.MetBy members)
      (below : Descends v f.value u s) : Descends (.object members) (.record fields) u s

/-- `LocalFault u s e`: at `u` and `s` themselves the fault is `e`. -/
inductive LocalFault : Value → Shape → Fault → Prop
  | primitive {u : Value} {kind : Primitive} (h : u.kind ≠ kind.kind) :
      LocalFault u (.primitive kind) (.shapeMismatch kind.keyword u.kind)
  | literal {u : Value} {lit : Literal} (h : ¬ u.Conforms (.literal lit)) :
      LocalFault u (.literal lit) (.literalMismatch (String.ofList lit.text))
  | array {u : Value} {element : Shape} (h : ∀ items, u ≠ .array items) :
      LocalFault u (.array element) (.shapeMismatch (Shape.array element).render u.kind)
  | tuple {u : Value} {elements : List Shape} (h : ∀ items, u ≠ .array items) :
      LocalFault u (.tuple elements) (.shapeMismatch (Shape.tuple elements).render u.kind)
  | record {u : Value} {fields : List (Field Shape)} (h : ∀ members, u ≠ .object members) :
      LocalFault u (.record fields) (.shapeMismatch (Shape.record fields).render u.kind)
  | arity {items : List Value} {elements : List Shape} (h : items.length ≠ elements.length) :
      LocalFault (.array items) (.tuple elements)
        (.tupleArity (Shape.tuple elements).render elements.length items.length)
  | missing {members : Entries Value} {fields : List (Field Shape)} {i : Nat} {f : Field Shape}
      (hf : fields[i]? = some f) (absent : f.key ∉ members.keys) (required : f.optional = false)
      (before : ∀ j < i, ∀ g, fields[j]? = some g → g.MetBy members) :
      LocalFault (.object members) (.record fields) (.missingField f.key)
  | union {u : Value} {members : List Shape} (h : ∀ t ∈ members, ¬ u.Conforms t) :
      LocalFault u (.union members) (.unionExhausted (Shape.union members).render)

def FirstFault (v : Value) (t : Shape) (e : Fault) : Prop :=
  ∃ u s, Descends v t u s ∧ LocalFault u s e

end Value

namespace Shape

theorem fieldMet_iff {members : Entries Value} {f : Field Shape} :
    f.check members = .ok () ↔ f.MetBy members := by
  simp only [fieldCheck_eq_ok, check_eq_ok_iff, Field.MetBy]

theorem fieldCheck_eq_error {members : Entries Value} {f : Field Shape} {e : Fault} :
    f.check members = .error e ↔
      (f.key ∉ members.keys ∧ f.optional = false ∧ e = .missingField f.key) ∨
        ∃ v, members.get? f.key = some v ∧ f.value.check v = .error e := by
  rw [← Entries.get?_eq_none_iff, Field.check]
  cases members.get? f.key with
  | none => cases f.optional <;> simp [eq_comm]
  | some v => simp

end Shape

namespace Value

theorem items?_eq_some {v : Value} {items : List Value} :
    v.items? = some items ↔ v = .array items := by
  cases v <;> simp [items?]

theorem members?_eq_some {v : Value} {members : Entries Value} :
    v.members? = some members ↔ v = .object members := by
  cases v <;> simp [members?]

theorem firstFault_of_here {v : Value} {t : Shape} {e : Fault}
    (hd : ∀ u s, v.Descends t u s → u = v ∧ s = t) : v.FirstFault t e ↔ v.LocalFault t e := by
  constructor
  · intro h
    obtain ⟨u, s, hs, hl⟩ := h
    obtain ⟨rfl, rfl⟩ := hd u s hs
    exact hl
  · intro h
    exact ⟨v, t, .here v t, h⟩

theorem firstFault_array {items : List Value} {element : Shape} {e : Fault} :
    FirstFault (.array items) (.array element) e ↔
      ∃ (i : Nat) (v : Value), items[i]? = some v ∧
        (∀ j < i, ∀ w, items[j]? = some w → w.Conforms element) ∧ v.FirstFault element e := by
  constructor
  · intro h
    obtain ⟨u, s, hd, hl⟩ := h
    cases hd with
    | here => cases hl with | array h => exact absurd rfl (h items)
    | item hv before below => exact ⟨_, _, hv, before, u, s, below, hl⟩
  · intro h
    obtain ⟨i, v, hv, before, u, s, below, hl⟩ := h
    exact ⟨u, s, .item hv before below, hl⟩

theorem firstFault_array_of_none {v : Value} {element : Shape} {e : Fault}
    (hv : v.items? = none) :
    v.FirstFault (.array element) e ↔ e = (Shape.array element).mismatch v := by
  have ha : ∀ items, v ≠ .array items := fun items h => by simp [h, items?] at hv
  rw [firstFault_of_here (by
    intro u s h
    cases h with
    | here => exact ⟨rfl, rfl⟩
    | item => exact absurd rfl (ha _))]
  constructor
  · intro h
    cases h
    rfl
  · intro h
    exact h ▸ .array ha

theorem firstFault_tuple {items : List Value} {elements : List Shape} {e : Fault}
    (hl : items.length = elements.length) :
    FirstFault (.array items) (.tuple elements) e ↔
      ∃ (i : Nat) (p : Shape × Value), (elements.zip items)[i]? = some p ∧
        (∀ j < i, ∀ q, (elements.zip items)[j]? = some q → q.2.Conforms q.1) ∧
        p.2.FirstFault p.1 e := by
  constructor
  · intro h
    obtain ⟨u, s, hd, hf⟩ := h
    cases hd with
    | here =>
      cases hf with
      | tuple h => exact absurd rfl (h items)
      | arity h => exact absurd hl h
    | position _ hv ht before below =>
      refine ⟨_, (_, _), List.getElem?_zip_eq_some.2 ⟨ht, hv⟩, fun j hj q hq => ?_,
        u, s, below, hf⟩
      obtain ⟨hr, hw⟩ := List.getElem?_zip_eq_some.1 hq
      exact before j hj q.2 q.1 hw hr
  · intro h
    obtain ⟨i, p, hp, before, u, s, below, hf⟩ := h
    obtain ⟨ht, hv⟩ := List.getElem?_zip_eq_some.1 hp
    refine ⟨u, s, .position hl hv ht (fun j hj w r hw hr => ?_) below, hf⟩
    exact before j hj (r, w) (List.getElem?_zip_eq_some.2 ⟨hr, hw⟩)

theorem firstFault_tuple_of_none {v : Value} {elements : List Shape} {e : Fault}
    (hv : v.items? = none) :
    v.FirstFault (.tuple elements) e ↔ e = (Shape.tuple elements).mismatch v := by
  have ha : ∀ items, v ≠ .array items := fun items h => by simp [h, items?] at hv
  rw [firstFault_of_here (by
    intro u s h
    cases h with
    | here => exact ⟨rfl, rfl⟩
    | position => exact absurd rfl (ha _))]
  constructor
  · intro h
    cases h with
    | tuple => rfl
    | arity => exact absurd rfl (ha _)
  · intro h
    exact h ▸ .tuple ha

theorem firstFault_tuple_of_length {items : List Value} {elements : List Shape} {e : Fault}
    (hl : items.length ≠ elements.length) :
    FirstFault (.array items) (.tuple elements) e ↔
      e = .tupleArity (Shape.tuple elements).render elements.length items.length := by
  rw [firstFault_of_here (by
    intro u s h
    cases h with
    | here => exact ⟨rfl, rfl⟩
    | position h => exact absurd h hl)]
  constructor
  · intro h
    cases h with
    | tuple h => exact absurd rfl (h items)
    | arity => rfl
  · intro h
    exact h ▸ .arity hl

theorem firstFault_record {members : Entries Value} {fields : List (Field Shape)} {e : Fault} :
    FirstFault (.object members) (.record fields) e ↔
      ∃ (i : Nat) (f : Field Shape), fields[i]? = some f ∧
        (∀ j < i, ∀ g, fields[j]? = some g → g.MetBy members) ∧
        ((f.key ∉ members.keys ∧ f.optional = false ∧ e = .missingField f.key) ∨
          ∃ v, members.get? f.key = some v ∧ v.FirstFault f.value e) := by
  constructor
  · intro h
    obtain ⟨u, s, hd, hl⟩ := h
    cases hd with
    | here =>
      cases hl with
      | record h => exact absurd rfl (h members)
      | missing hf absent required before =>
        exact ⟨_, _, hf, before, .inl ⟨absent, required, rfl⟩⟩
    | field hf hv before below => exact ⟨_, _, hf, before, .inr ⟨_, hv, u, s, below, hl⟩⟩
  · intro h
    obtain ⟨i, f, hf, before, ⟨absent, required, rfl⟩ | ⟨v, hv, u, s, below, hl⟩⟩ := h
    · exact ⟨_, _, .here _ _, .missing hf absent required before⟩
    · exact ⟨u, s, .field hf hv before below, hl⟩

theorem firstFault_record_of_none {v : Value} {fields : List (Field Shape)} {e : Fault}
    (hv : v.members? = none) :
    v.FirstFault (.record fields) e ↔ e = (Shape.record fields).mismatch v := by
  have ho : ∀ members, v ≠ .object members := fun members h => by simp [h, members?] at hv
  rw [firstFault_of_here (by
    intro u s h
    cases h with
    | here => exact ⟨rfl, rfl⟩
    | field => exact absurd rfl (ho _))]
  constructor
  · intro h
    cases h with
    | record => rfl
    | missing => exact absurd rfl (ho _)
  · intro h
    exact h ▸ .record ho

theorem firstFault_union {v : Value} {members : List Shape} {e : Fault} :
    v.FirstFault (.union members) e ↔
      (∀ t ∈ members, ¬ v.Conforms t) ∧ e = .unionExhausted (Shape.union members).render := by
  rw [firstFault_of_here (by intro u s h; cases h; exact ⟨rfl, rfl⟩)]
  constructor
  · intro h
    cases h with | union h => exact ⟨h, rfl⟩
  · intro h
    exact h.2 ▸ .union h.1

theorem firstFault_primitive {v : Value} {kind : Primitive} {e : Fault} :
    v.FirstFault (.primitive kind) e ↔
      v.kind ≠ kind.kind ∧ e = .shapeMismatch kind.keyword v.kind := by
  rw [firstFault_of_here (by intro u s h; cases h; exact ⟨rfl, rfl⟩)]
  constructor
  · intro h
    cases h with | primitive h => exact ⟨h, rfl⟩
  · intro h
    exact h.2 ▸ .primitive h.1

theorem firstFault_literal {v : Value} {lit : Literal} {e : Fault} :
    v.FirstFault (.literal lit) e ↔
      ¬ v.Conforms (.literal lit) ∧ e = .literalMismatch (String.ofList lit.text) := by
  rw [firstFault_of_here (by intro u s h; cases h; exact ⟨rfl, rfl⟩)]
  constructor
  · intro h
    cases h with | literal h => exact ⟨h, rfl⟩
  · intro h
    exact h.2 ▸ .literal h.1

theorem not_firstFault_other {v : Value} {kind : Wildcard} {e : Fault} :
    ¬ v.FirstFault (.other kind) e := by
  rw [firstFault_of_here (by intro u s h; cases h; exact ⟨rfl, rfl⟩)]
  exact nofun

end Value

namespace Shape

theorem check_eq_error_iff {t : Shape} {v : Value} {e : Fault} :
    t.check v = .error e ↔ v.FirstFault t e := by
  induction t generalizing v with
  | record fields ih =>
    rw [check]
    cases hv : v.members? with
    | none => simp [Value.firstFault_record_of_none hv, eq_comm]
    | some members =>
      obtain rfl := Value.members?_eq_some.1 hv
      -- The loop stops at the first fault: the fields before it pass, which is to say they are met.
      simp only [checkFields_eq_forM, forM_eq_error, fieldMet_iff, fieldCheck_eq_error,
        Value.firstFault_record]
      refine exists_congr fun i => exists_congr fun f => and_congr_right fun hf => ?_
      simp only [ih f (List.mem_of_getElem? hf)]
  | tuple elements ih =>
    rw [check]
    cases hv : v.items? with
    | none => simp [Value.firstFault_tuple_of_none hv, eq_comm]
    | some items =>
      obtain rfl := Value.items?_eq_some.1 hv
      by_cases hl : items.length = elements.length
      · simp only [ne_eq, hl, not_true_eq_false, if_false, checkEach_eq_forM, forM_eq_error,
          check_eq_ok_iff, Value.firstFault_tuple hl]
        refine exists_congr fun i => exists_congr fun p => and_congr_right fun hp => ?_
        have ht := (List.getElem?_zip_eq_some.1 hp).1
        simp only [ih p.1 (List.mem_of_getElem? ht)]
      · simp [hl, Value.firstFault_tuple_of_length hl, eq_comm]
  | array element ih =>
    rw [check]
    cases hv : v.items? with
    | none => simp [Value.firstFault_array_of_none hv, eq_comm]
    | some items =>
      obtain rfl := Value.items?_eq_some.1 hv
      simp only [forM_eq_error, check_eq_ok_iff, Value.firstFault_array, ih]
  | union members =>
    have hn : checkSome members v = false ↔ ∀ t ∈ members, ¬ v.Conforms t := by
      rw [← Bool.not_eq_true, checkSome_eq_true]
      simp [check_eq_ok_iff]
    rw [check, Value.firstFault_union, ← hn]
    cases checkSome members v <;> simp [eq_comm]
  | primitive kind =>
    rw [check, Value.firstFault_primitive, ne_eq, ← Primitive.check_eq_ok, Primitive.check]
    split_ifs <;> simp [eq_comm]
  | literal lit =>
    rw [check, Value.firstFault_literal, ← Literal.check_eq_ok, Literal.check]
    split_ifs <;> simp [eq_comm]
  | other kind => simp [check, Value.not_firstFault_other]

/-- A value is refused for the local fault of the first place where it fails. -/
theorem accept_eq_error_iff_first_local (t : Shape) (v : Value) (e : Fault) :
    t.accept v = .error e ↔ ∃ u s, v.Descends t u s ∧ u.LocalFault s e :=
  accept_eq_error_iff_check.trans check_eq_error_iff

end Shape
end Conformance
