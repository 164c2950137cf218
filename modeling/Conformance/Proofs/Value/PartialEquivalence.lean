import Conformance.Proofs.Places
import Conformance.Proofs.Value.Equality

/-!
# Equality as a partial equivalence

Two objects are compared from one side: both have equally many members, and each
key of the first is looked up in the second. As no key comes twice, this can be
read from either side, so equality of values is symmetric; and it is transitive.
It is not reflexive: a value equals itself unless a NaN occurs in it.
-/
namespace Conformance

theorem Double.equals_self_iff {x : Double} : x.equals x = true ↔ x ≠ .nan := by
  cases x with
  | finite x => simp [equals, Finite.equals_refl]
  | infinite negative => simp [equals]
  | nan => simp [equals]

namespace Value

section
variable {u v w : Value} {as bs : Entries Value}

theorem equals_iff_eq (h : v.kind ∉ [Kind.number, .array, .object]) :
    v.equals w = true ↔ v = w := by
  cases v <;> simp only [kind, List.mem_cons, reduceCtorEq, List.not_mem_nil, or_false,
    or_true, not_true_eq_false] at h <;> cases w <;> simp [equals]

theorem equals_object_iff_matched (hd : as.Distinct) :
    (object as).equals (object bs) = true ↔
      Entries.Matched (fun a b => a.equals b = true) as bs := by
  rw [equals_object, Entries.matched_iff_get? hd]

theorem equals_symm (hv : v.WellFormed) (h : v.equals w = true) : w.equals v = true := by
  induction v generalizing w with
  | array items ih =>
    obtain ⟨hn, -⟩ | ⟨as, bs, he, rfl⟩ := arrays_of_equals h
    · cases hn
    · cases he
      have hw := wellFormedItems_iff.1 hv
      apply equals_array.2
      apply List.Forall₂.flip
      exact forall₂_imp_mem (fun v hm w hvw => ih v hm (hw v hm) hvw) (equals_array.1 h)
  | object members ih =>
    obtain ⟨hn, -⟩ | ⟨as, bs, he, rfl⟩ := objects_of_equals h
    · cases hn
    · cases he
      have hm := (equals_object_iff_matched hv.1).1 h
      have hw := wellFormedMembers_iff.1 hv.2
      apply (equals_object_iff_matched (hm.keys_perm.nodup_iff.1 hv.1)).2
      exact hm.symm fun m hm w hvw => ih m hm (hw m hm) hvw
  | number x =>
    cases w with
    | number y => exact (y.equals_comm x).trans h
    | _ => cases h
  | _ =>
    obtain rfl := (equals_iff_eq (by simp [kind])).1 h
    exact h

theorem equals_trans (huv : u.equals v = true) (hvw : v.equals w = true) :
    u.equals w = true := by
  induction u generalizing v w with
  | array items ih =>
    obtain ⟨hn, -⟩ | ⟨_, as, he, rfl⟩ := arrays_of_equals huv
    · cases hn
    obtain ⟨hn, -⟩ | ⟨_, bs, he', rfl⟩ := arrays_of_equals hvw
    · cases hn
    cases he
    cases he'
    apply equals_array.2
    exact forall₂_trans_mem (fun u hu v w => ih u hu) (equals_array.1 huv) (equals_array.1 hvw)
  | object members ih =>
    obtain ⟨hn, -⟩ | ⟨_, as, he, rfl⟩ := objects_of_equals huv
    · cases hn
    obtain ⟨hn, -⟩ | ⟨_, bs, he', rfl⟩ := objects_of_equals hvw
    · cases hn
    cases he
    cases he'
    obtain ⟨hl, huv⟩ := equals_object.1 huv
    obtain ⟨hl', hvw⟩ := equals_object.1 hvw
    refine equals_object.2 ⟨hl.trans hl', fun m hm => ?_⟩
    -- What is found in the middle is a member there, and so is looked up again.
    obtain ⟨v, hv, huv⟩ := huv m hm
    obtain ⟨w, hw, hvw⟩ := hvw (m.1, v) (Entries.mem_of_get? hv)
    exact ⟨w, hw, ih m hm huv hvw⟩
  | number x =>
    cases v with
    | number y =>
      cases w with
      | number z => exact Double.equals_trans huv hvw
      | _ => cases hvw
    | _ => cases huv
  | _ =>
    obtain rfl := (equals_iff_eq (by simp [kind])).1 huv
    exact hvw

theorem equals_self_iff (hv : v.WellFormed) :
    v.equals v = true ↔ ¬ (number .nan).OccursIn v := by
  induction v with
  | array items ih =>
    have hw := wellFormedItems_iff.1 hv
    rw [equals_array, List.forall₂_same, occursIn_array]
    simp only [reduceCtorEq, false_or, not_exists, not_and]
    exact forall₂_congr fun v hm => ih v hm (hw v hm)
  | object members ih =>
    have hw := wellFormedMembers_iff.1 hv.2
    rw [equals_object, occursIn_object hv.1]
    simp only [true_and, reduceCtorEq, false_or, not_exists, not_and]
    apply forall₂_congr
    intro m hm
    rw [Entries.get?_of_mem hv.1 hm, ← ih m hm (hw m hm)]
    simp
  | number x =>
    rw [occursIn_scalar (by simp [kind]), equals, Double.equals_self_iff, ne_eq, number.injEq,
      eq_comm]
  | _ =>
    rw [occursIn_scalar (by simp [kind]), equals_iff_eq (by simp [kind])]
    simp

end

/-- Equality is symmetric and transitive, and a value equals itself exactly when no NaN occurs in
it at any depth. -/
theorem equality_is_partial_equivalence (u v w : Value) (hv : v.WellFormed) :
    (v.equals w = true → w.equals v = true) ∧
    (u.equals v = true → v.equals w = true → u.equals w = true) ∧
    (v.equals v = true ↔ ¬ (number .nan).OccursIn v) :=
  ⟨equals_symm hv, equals_trans, equals_self_iff hv⟩

def namedAt (x : Double) : Value := object [("name", string "n"), ("at", array [null, number x])]

def atNamed (x : Double) : Value := object [("at", array [null, number x]), ("name", string "n")]

theorem equality_of_named :
    let plus : Double := .finite .zero
    let minus : Double := .finite { Finite.zero with negative := true }
    (atNamed minus).WellFormed ∧ (atNamed minus).equals (namedAt plus) = true ∧
      (namedAt plus).equals (atNamed minus) = true ∧
      (namedAt plus).equals (namedAt plus) = true ∧
      (atNamed .nan).equals (atNamed .nan) = false := by
  intro plus minus
  have hw x : (atNamed x).WellFormed := by
    simp [atNamed, WellFormed, WellFormedMembers, WellFormedItems, Entries.Distinct, Entries.keys]
  have h : (atNamed minus).equals (namedAt plus) = true := by decide
  obtain ⟨hsymm, htrans, -⟩ :=
    equality_is_partial_equivalence (namedAt plus) (atNamed minus) (namedAt plus) (hw minus)
  obtain ⟨-, -, hnan⟩ := equality_is_partial_equivalence null (atNamed .nan) null (hw .nan)
  have hn : (number .nan).OccursIn (atNamed .nan) := ⟨[.key "at", .index 1], rfl⟩
  refine ⟨hw minus, h, hsymm h, htrans (hsymm h) h, ?_⟩
  rw [Bool.eq_false_iff]
  exact fun he => hnan.1 he hn

end Value
end Conformance
