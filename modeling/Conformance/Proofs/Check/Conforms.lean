import Conformance.Proofs.Check.Faults
import Mathlib.Tactic.SplitIfs

/-!
# Conforming to a shape

`Value.Conforms` says what a shape means without saying how values are checked:
there is no order in it, no place where a check stops, and no fault. The main
statement is that a value is accepted, and handed back as it came, exactly when
it conforms. It holds of every shape that can be built, also of empty unions, of
records that declare a key twice and of literals that no number equals.
-/
namespace Conformance

def Primitive.kind : Primitive → Kind
  | null => .null
  | undefined => .undefined
  | string => .string
  | boolean => .boolean
  | number => .number
  | bigint => .bigint
  | symbol => .symbol

inductive Value.Conforms : Value → Shape → Prop
  | undefined : Conforms .undefined (.primitive .undefined)
  | null : Conforms .null (.primitive .null)
  | anyBoolean (b : Bool) : Conforms (.boolean b) (.primitive .boolean)
  | anyNumber (x : Double) : Conforms (.number x) (.primitive .number)
  | anyBigint (n : Int) : Conforms (.bigint n) (.primitive .bigint)
  | anyString (s : String) : Conforms (.string s) (.primitive .string)
  | anySymbol (description : Option String) :
      Conforms (.symbol description) (.primitive .symbol)
  | boolean (b : Bool) : Conforms (.boolean b) (.literal (.boolean b))
  | number {x y : Double} (h : y.equals x = true) :
      Conforms (.number y) (.literal (.number x))
  | string (s : String) : Conforms (.string s) (.literal (.string s))
  | array {items : List Value} {element : Shape} (each : ∀ v ∈ items, Conforms v element) :
      Conforms (.array items) (.array element)
  | tuple {items : List Value} {elements : List Shape} (length : items.length = elements.length)
      (each : ∀ (i : Nat) (v : Value) (t : Shape), items[i]? = some v → elements[i]? = some t →
        Conforms v t) :
      Conforms (.array items) (.tuple elements)
  | union {v : Value} {members : List Shape} {t : Shape} (mem : t ∈ members)
      (h : Conforms v t) : Conforms v (.union members)
  | record {members : Entries Value} {fields : List (Field Shape)}
      (absent : ∀ f ∈ fields, f.key ∉ members.keys → f.optional = true)
      (present : ∀ f ∈ fields, ∀ v, members.get? f.key = some v → Conforms v f.value) :
      Conforms (.object members) (.record fields)
  | other (v : Value) (kind : Wildcard) : Conforms v (.other kind)

theorem Value.conforms_primitive_iff {v : Value} {kind : Primitive} :
    v.Conforms (.primitive kind) ↔ v.kind = kind.kind := by
  constructor
  · intro h
    cases h <;> rfl
  · intro h
    cases v <;> cases kind <;> first | constructor | cases h

theorem Primitive.check_eq_ok {kind : Primitive} {v : Value} :
    kind.check v = .ok () ↔ v.kind = kind.kind := by
  have hk : (kind = .null ∧ v.kind = .null) ∨ v.kind.primitive? = some kind ↔
      v.kind = kind.kind := by
    generalize v.kind = k
    cases kind <;> cases k <;> decide
  simp only [Primitive.check, hk]
  split_ifs with h <;> simp [h]

theorem Literal.matches_iff {lit : Literal} {v : Value} :
    lit.matches v = true ↔ v.Conforms (.literal lit) := by
  constructor
  · intro h
    cases lit <;> cases v <;> simp only [Literal.matches, beq_iff_eq, Bool.false_eq_true] at h
    · exact h ▸ .boolean _
    · exact .number h
    · exact h ▸ .string _
  · intro h
    cases h with
    | boolean b => exact beq_self_eq_true b
    | number h => exact h
    | string s => exact beq_self_eq_true s

theorem Literal.check_eq_ok {lit : Literal} {v : Value} :
    lit.check v = .ok () ↔ v.Conforms (.literal lit) := by
  rw [← matches_iff, Literal.check]
  split_ifs with h <;> simp [h]

def Field.check (members : Entries Value) (f : Field Shape) : Except Fault Unit :=
  match members.get? f.key with
  | some v => f.value.check v
  | none => if f.optional then .ok () else .error (.missingField f.key)

namespace Shape

section
variable {α : Type} {f : α → Except Fault Unit} {xs : List α} {e : Fault}

theorem forM_cons (x : α) : (x :: xs).forM f = (f x).bind fun _ => xs.forM f := rfl

theorem forM_eq_ok : xs.forM f = .ok () ↔ ∀ x ∈ xs, f x = .ok () := by
  induction xs with
  | nil => simp [pure, Except.pure]
  | cons x xs ih =>
    rw [List.forall_mem_cons, ← ih, forM_cons]
    cases h : f x <;> simp [Except.bind]

theorem forM_eq_error :
    xs.forM f = .error e ↔
      ∃ (i : Nat) (x : α), xs[i]? = some x ∧
        (∀ j < i, ∀ y, xs[j]? = some y → f y = .ok ()) ∧ f x = .error e := by
  induction xs with
  | nil => simp [pure, Except.pure]
  | cons x xs ih =>
    rw [forM_cons]
    cases h : f x with
    | error e' =>
      constructor
      · intro he
        cases he
        exact ⟨0, x, rfl, by simp, h⟩
      · intro hf
        obtain ⟨_ | i, y, hy, hb, he⟩ := hf
        · cases hy
          rw [h] at he
          exact he
        · have hx := hb 0 (Nat.succ_pos i) x rfl
          simp [h] at hx
    | ok u =>
      refine ih.trans ⟨?_, ?_⟩
      · intro hf
        obtain ⟨i, y, hy, hb, he⟩ := hf
        refine ⟨i + 1, y, hy, fun j hj z hz => ?_, he⟩
        cases j with
        | zero => cases hz; exact h
        | succ j => exact hb j (Nat.lt_of_succ_lt_succ hj) z hz
      · intro hf
        obtain ⟨_ | i, y, hy, hb, he⟩ := hf
        · cases hy
          simp [h] at he
        · exact ⟨i, y, hy, fun j hj z hz => hb (j + 1) (Nat.succ_lt_succ hj) z hz, he⟩

end

theorem checkEach_eq_forM (ts : List Shape) (vs : List Value) :
    checkEach ts vs = (ts.zip vs).forM fun p => p.1.check p.2 := by
  induction ts generalizing vs with
  | nil => simp [checkEach, pure, Except.pure]
  | cons t ts ih =>
    cases vs with
    | nil => simp [checkEach, pure, Except.pure]
    | cons v vs =>
      rw [checkEach, List.zip_cons_cons, forM_cons, ih]
      cases t.check v <;> rfl

theorem checkFields_eq_forM (fields : List (Field Shape)) (members : Entries Value) :
    checkFields fields members = fields.forM (Field.check members) := by
  induction fields with
  | nil => rfl
  | cons f fields ih =>
    rw [checkFields, forM_cons, Field.check, ih]
    cases members.get? f.key with
    | none => cases f.optional <;> rfl
    | some v =>
      dsimp only
      cases f.value.check v <;> rfl

theorem checkSome_eq_true {ts : List Shape} {v : Value} :
    checkSome ts v = true ↔ ∃ t ∈ ts, t.check v = .ok () := by
  induction ts with
  | nil => simp [checkSome]
  | cons t ts ih =>
    cases h : t.check v <;> simp [checkSome, ih, h, Except.isOk, Except.toBool]

theorem fieldCheck_eq_ok {members : Entries Value} {f : Field Shape} :
    f.check members = .ok () ↔
      (f.key ∉ members.keys → f.optional = true) ∧
        ∀ v, members.get? f.key = some v → f.value.check v = .ok () := by
  rw [← Entries.get?_eq_none_iff, Field.check]
  cases members.get? f.key with
  | none => cases f.optional <;> simp
  | some v => simp

theorem check_eq_ok_iff {t : Shape} {v : Value} : t.check v = .ok () ↔ v.Conforms t := by
  induction t generalizing v with
  | record fields ih =>
    cases v with
    | object members =>
      simp only [check, Value.members?, checkFields_eq_forM, forM_eq_ok, fieldCheck_eq_ok]
      constructor
      · intro h
        exact .record (fun f hf => (h f hf).1) fun f hf w hw => (ih f hf).1 ((h f hf).2 w hw)
      · intro h f hf
        cases h with
        | record ha hp => exact ⟨ha f hf, fun w hw => (ih f hf).2 (hp f hf w hw)⟩
    | _ => exact ⟨by simp [check, Value.members?], fun h => by cases h⟩
  | tuple elements ih =>
    cases v with
    | array items =>
      simp only [check, Value.items?]
      split_ifs with hl
      · refine ⟨by simp, fun h => ?_⟩
        cases h with
        | tuple length => exact absurd length hl
      -- A pair of the zipped lists is an element and an item at one index.
      · rw [checkEach_eq_forM, forM_eq_ok]
        constructor
        · intro h
          refine .tuple (not_not.1 hl) fun i w s hw hs => ?_
          exact (ih s (List.mem_of_getElem? hs)).1
            (h (s, w) (List.mem_of_getElem? (List.getElem?_zip_eq_some.2 ⟨hs, hw⟩)))
        · intro h p hp
          obtain ⟨i, hi⟩ := List.mem_iff_getElem?.1 hp
          obtain ⟨hs, hw⟩ := List.getElem?_zip_eq_some.1 hi
          cases h with
          | tuple _ each => exact (ih p.1 (List.mem_of_getElem? hs)).2 (each i p.2 p.1 hw hs)
    | _ => exact ⟨by simp [check, Value.items?], fun h => by cases h⟩
  | array element ih =>
    cases v with
    | array items =>
      simp only [check, Value.items?, forM_eq_ok, ih]
      refine ⟨.array, fun h => ?_⟩
      cases h with
      | array each => exact each
    | _ => exact ⟨by simp [check, Value.items?], fun h => by cases h⟩
  | union members ih =>
    -- Only whether a member accepts is known here, and not why the others do not.
    have hs : checkSome members v = true ↔ v.Conforms (.union members) := by
      rw [checkSome_eq_true]
      constructor
      · intro h
        obtain ⟨t, ht, hc⟩ := h
        exact .union ht ((ih t ht).1 hc)
      · intro h
        cases h with
        | union ht hc => exact ⟨_, ht, (ih _ ht).2 hc⟩
    rw [← hs, check]
    split_ifs with h <;> simp [h]
  | primitive kind =>
    rw [check, Primitive.check_eq_ok, Value.conforms_primitive_iff]
  | literal lit => rw [check, Literal.check_eq_ok]
  | other kind => simpa [check] using Value.Conforms.other v kind

/-- A value is accepted exactly when it conforms, and what is handed back is the value itself. -/
theorem accept_eq_ok_iff_conforms (t : Shape) (v w : Value) :
    t.accept v = .ok w ↔ w = v ∧ v.Conforms t := by
  rw [accept_eq_ok_iff_check, check_eq_ok_iff]

end Shape
end Conformance
