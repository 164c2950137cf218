import Conformance.Proofs.Check.Alike
import Conformance.Proofs.Value.Equality

/-!
# Equal values are checked alike

A check looks at the kind of a value, at its items in order, at what lies under
the declared keys, and compares numbers as numbers. None of this tells equal
values apart, so equal values meet the same fault or none, whatever the order of
the members and the signs of the zeros in them.
-/
namespace Conformance

open Value (arrays_of_equals get?_of_equals kind_of_equals objects_of_equals)

variable {v w : Value}

theorem Literal.matches_of_equals (h : v.equals w = true) (lit : Literal) :
    lit.matches v = lit.matches w := by
  cases v <;> cases w <;> simp only [Value.equals, beq_iff_eq, Bool.false_eq_true] at h <;>
    cases lit <;> simp only [Literal.matches, h]
  rename_i x y z
  rw [x.equals_comm, y.equals_comm]
  exact Double.equals_right h z

theorem Value.alike_of_equals :
    Alike (fun _ => True) fun v w => v.WellFormed ∧ v.equals w = true where
  kind := fun h => kind_of_equals h.2
  literal := fun h => Literal.matches_of_equals h.2
  items := by
    rintro v w ⟨hv, h⟩
    rcases arrays_of_equals h with ⟨hv', hw'⟩ | ⟨as, bs, rfl, rfl⟩
    · rw [hv', hw']
      exact .none
    · exact .some ((List.forall₂_and_left as bs).2
        ⟨wellFormedItems_iff.1 hv, equals_array.1 h⟩)
  members := by
    rintro v w ⟨hv, h⟩
    rcases objects_of_equals h with ⟨hv', hw'⟩ | ⟨as, bs, rfl, rfl⟩
    · rw [hv', hw']
      exact .none
    · refine .some fun key _ => ?_
      rcases get?_of_equals hv.1 h key with ⟨ha, hb⟩ | ⟨a, b, ha, hb, hab⟩
      · rw [ha, hb]
        exact .none
      · rw [ha, hb]
        exact .some ⟨wellFormedMembers_iff.1 hv.2 _ (Entries.mem_of_get? ha), hab⟩

namespace Shape

theorem check_of_equals (t : Shape) (hv : v.WellFormed) (h : v.equals w = true) :
    t.check v = t.check w :=
  check_congr Value.alike_of_equals t (fun _ _ => trivial) ⟨hv, h⟩

/-- Equal values are both accepted, each handed back as it came, or both rejected for the same
fault. -/
theorem accept_of_equal_values (t : Shape) (v w : Value) (hv : v.WellFormed)
    (h : v.equals w = true) :
    (t.accept v = .ok v ∧ t.accept w = .ok w) ∨
      ∃ e, t.accept v = .error e ∧ t.accept w = .error e := by
  have hc := check_of_equals t hv h
  rw [accept_eq_map_check, accept_eq_map_check, ← hc]
  cases t.check v with
  | ok _ => exact .inl ⟨rfl, rfl⟩
  | error e => exact .inr ⟨e, rfl, rfl⟩

theorem accept_of_reordered_members :
    let v : Value := .object
      [("at", .array [.number (.finite ⟨false, 0, by decide⟩)]), ("name", .null)]
    let w : Value := .object
      [("name", .null), ("at", .array [.number (.finite ⟨true, 0, by decide⟩)])]
    let t : Shape := .record
      [⟨"at", .array (.literal (.number (.finite ⟨true, 0, by decide⟩))), false⟩,
        ⟨"name", .primitive .string, true⟩]
    v.WellFormed ∧ v.equals w = true ∧
      ((t.accept v = .ok v ∧ t.accept w = .ok w) ∨
        ∃ e, t.accept v = .error e ∧ t.accept w = .error e) := by
  intro v w t
  have hv : v.WellFormed := by
    simp [v, Value.WellFormed, Value.WellFormedMembers, Value.WellFormedItems, Entries.Distinct,
      Entries.keys]
  have h : v.equals w = true := by decide
  exact ⟨hv, h, accept_of_equal_values t v w hv h⟩

end Shape
end Conformance
