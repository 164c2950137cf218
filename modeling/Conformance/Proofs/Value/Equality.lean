import Conformance.Proofs.Entries
import Conformance.Value
import Mathlib.Data.List.Forall2

/-!
# Equality of values, part by part

Equal arrays have equal items, position by position. Equal objects have the same
keys, though in any order, and equal values under each of them: every key of the
one is looked up in the other, and as no key comes twice and both have equally
many, none of the other is left over.
-/
namespace Conformance.Value

@[elab_as_elim, induction_eliminator]
theorem byParts {motive : Value → Prop} (undefined : motive .undefined) (null : motive .null)
    (boolean : ∀ b, motive (.boolean b)) (number : ∀ x, motive (.number x))
    (bigint : ∀ n, motive (.bigint n)) (string : ∀ s, motive (.string s))
    (symbol : ∀ d, motive (.symbol d))
    (array : ∀ items : List Value, (∀ v ∈ items, motive v) → motive (.array items))
    (object : ∀ members : List (String × Value), (∀ m ∈ members, motive m.2) →
      motive (.object members)) : ∀ v, motive v
  | .undefined => undefined
  | .null => null
  | .boolean b => boolean b
  | .number x => number x
  | .bigint n => bigint n
  | .string s => string s
  | .symbol d => symbol d
  | .array items =>
    array items fun v _ =>
      byParts undefined null boolean number bigint string symbol array object v
  | .object members =>
    object members fun m _ =>
      byParts undefined null boolean number bigint string symbol array object m.2
termination_by v => sizeOf v
decreasing_by
  · rename_i hv
    have hs := List.sizeOf_lt_of_mem hv
    simp only [Value.array.sizeOf_spec]
    omega
  · rename_i hm
    have hs := List.sizeOf_lt_of_mem hm
    cases m
    simp only [Value.object.sizeOf_spec, Prod.mk.sizeOf_spec] at hs ⊢
    omega

variable {v w : Value}

theorem kind_of_equals (h : v.equals w = true) : v.kind = w.kind := by
  cases v <;> cases w <;> first | rfl | simp [equals] at h

theorem arrays_of_equals (h : v.equals w = true) :
    (v.items? = none ∧ w.items? = none) ∨ ∃ as bs, v = array as ∧ w = array bs := by
  cases v <;> cases w <;> simp [equals] at h <;> simp [items?]

theorem objects_of_equals (h : v.equals w = true) :
    (v.members? = none ∧ w.members? = none) ∨ ∃ as bs, v = object as ∧ w = object bs := by
  cases v <;> cases w <;> simp [equals] at h <;> simp [members?]

theorem itemsEqual_iff {as bs : List Value} :
    itemsEqual as bs = true ↔ List.Forall₂ (fun a b => a.equals b = true) as bs := by
  induction as generalizing bs with
  | nil => cases bs <;> simp [itemsEqual]
  | cons a as ih => cases bs <;> simp [itemsEqual, ih]

theorem membersEqual_iff {as bs : Entries Value} :
    membersEqual as bs = true ↔
      ∀ m ∈ as, ∃ b, bs.get? m.1 = some b ∧ m.2.equals b = true := by
  induction as with
  | nil => simp [membersEqual]
  | cons m as ih =>
    rw [membersEqual, Bool.and_eq_true, ih, List.forall_mem_cons]
    apply and_congr_left'
    cases bs.get? m.1 <;> simp

theorem wellFormedItems_iff {items : List Value} :
    WellFormedItems items ↔ ∀ v ∈ items, v.WellFormed := by
  induction items with
  | nil => simp [WellFormedItems]
  | cons v vs ih => simp [WellFormedItems, ih]

theorem wellFormedMembers_iff {members : Entries Value} :
    WellFormedMembers members ↔ ∀ m ∈ members, m.2.WellFormed := by
  induction members with
  | nil => simp [WellFormedMembers]
  | cons m ms ih => simp [WellFormedMembers, ih]

theorem equals_array {as bs : List Value} :
    (array as).equals (array bs) = true ↔ List.Forall₂ (fun a b => a.equals b = true) as bs := by
  rw [equals, itemsEqual_iff]

theorem equals_object {as bs : Entries Value} :
    (object as).equals (object bs) = true ↔
      as.length = bs.length ∧ ∀ m ∈ as, ∃ b, bs.get? m.1 = some b ∧ m.2.equals b = true := by
  rw [equals, Bool.and_eq_true, beq_iff_eq, membersEqual_iff]

theorem keys_perm_of_equals {as bs : Entries Value} (hd : as.Distinct)
    (h : (object as).equals (object bs) = true) : as.keys.Perm bs.keys := by
  obtain ⟨hl, hm⟩ := equals_object.1 h
  exact Entries.keys_perm_of_get? hd hl fun m h => (hm m h).imp fun _ hb => hb.1

theorem get?_of_equals {as bs : Entries Value} (hd : as.Distinct)
    (h : (object as).equals (object bs) = true) (key : String) :
    (as.get? key = none ∧ bs.get? key = none) ∨
      ∃ a b, as.get? key = some a ∧ bs.get? key = some b ∧ a.equals b = true := by
  cases ha : as.get? key with
  | none =>
    have hk : key ∉ bs.keys := by
      rw [← (keys_perm_of_equals hd h).mem_iff]
      exact Entries.get?_eq_none_iff.1 ha
    exact .inl ⟨rfl, Entries.get?_eq_none_iff.2 hk⟩
  | some a =>
    obtain ⟨b, hb, hab⟩ := (equals_object.1 h).2 _ (Entries.mem_of_get? ha)
    exact .inr ⟨a, b, rfl, hb, hab⟩

end Conformance.Value
