import Conformance.Json.Text
import Mathlib.Algebra.Order.BigOperators.Group.List
import Mathlib.Tactic.Ring

/-!
# How long texts are

The length of the text of an array or an object is the sum of the lengths of its
parts, each with its separator. So two documents that differ in one part differ
in length by as much as that part does.
-/
namespace Conformance.Json

theorem length_textOfItems (items : List Json) :
    (textOfItems items).length = (items.map fun j => j.text.length + 1).sum + 1 := by
  induction items with
  | nil => rfl
  | cons j items ih =>
    simp only [textOfItems, List.length_cons, List.length_append, ih, List.map_cons, List.sum_cons]
    omega

theorem length_textOfMembers (members : List (String × Json)) :
    (textOfMembers members).length =
      (members.map fun m => (quoted m.1).length + m.2.text.length + 2).sum + 1 := by
  induction members with
  | nil => rfl
  | cons m members ih =>
    simp only [textOfMembers, List.length_cons, List.length_append, ih, List.map_cons,
      List.sum_cons]
    omega

theorem length_text_array (items : List Json) :
    (array items).text.length =
      (items.map fun j => j.text.length + 1).sum + if items = [] then 2 else 1 := by
  cases items with
  | nil => rfl
  | cons j items =>
    simp only [text, List.length_cons, List.length_append, length_textOfItems, List.map_cons,
      List.sum_cons, reduceCtorEq, if_false]
    omega

theorem length_text_object (members : List (String × Json)) :
    (object members).text.length =
      (members.map fun m => (quoted m.1).length + m.2.text.length + 2).sum +
        if members = [] then 2 else 1 := by
  cases members with
  | nil => rfl
  | cons m members =>
    simp only [text, List.length_cons, List.length_append, length_textOfMembers, List.map_cons,
      List.sum_cons, reduceCtorEq, if_false]
    omega

section
variable {α : Type} {k : α → String} {f g : α → Json} {as : List α}

theorem length_text_array_le
    (h : ∀ a ∈ as, (f a).text.length ≤ (g a).text.length) :
    (array (as.map f)).text.length ≤ (array (as.map g)).text.length := by
  simp only [length_text_array, List.map_map, List.map_eq_nil_iff]
  exact Nat.add_le_add_right (List.sum_le_sum fun a ha => Nat.succ_le_succ (h a ha)) _

theorem length_text_array_lt
    (h : ∀ a ∈ as, (f a).text.length ≤ (g a).text.length)
    (hlt : ∃ a ∈ as, (f a).text.length < (g a).text.length) :
    (array (as.map f)).text.length < (array (as.map g)).text.length := by
  simp only [length_text_array, List.map_map, List.map_eq_nil_iff]
  obtain ⟨a, ha, hlt⟩ := hlt
  exact Nat.add_lt_add_right (List.sum_lt_sum _ _ (fun a ha => Nat.succ_le_succ (h a ha))
    ⟨a, ha, Nat.succ_lt_succ hlt⟩) _

theorem length_text_object_le
    (h : ∀ a ∈ as, (f a).text.length ≤ (g a).text.length) :
    (object (as.map fun a => (k a, f a))).text.length ≤
      (object (as.map fun a => (k a, g a))).text.length := by
  simp only [length_text_object, List.map_map, List.map_eq_nil_iff]
  refine Nat.add_le_add_right (List.sum_le_sum fun a ha => ?_) _
  have := h a ha
  simp only [Function.comp_apply]
  omega

theorem length_text_object_lt
    (h : ∀ a ∈ as, (f a).text.length ≤ (g a).text.length)
    (hlt : ∃ a ∈ as, (f a).text.length < (g a).text.length) :
    (object (as.map fun a => (k a, f a))).text.length <
      (object (as.map fun a => (k a, g a))).text.length := by
  simp only [length_text_object, List.map_map, List.map_eq_nil_iff]
  obtain ⟨a, ha, hlt⟩ := hlt
  refine Nat.add_lt_add_right (List.sum_lt_sum _ _ (fun a ha => ?_) ⟨a, ha, ?_⟩) _
  · have := h a ha
    simp only [Function.comp_apply]
    omega
  · simp only [Function.comp_apply]
    omega

end

end Conformance.Json
