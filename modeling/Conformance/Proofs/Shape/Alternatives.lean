import Conformance.Proofs.Check.Inclusion
import Conformance.Shape.Text

/-!
# The alternatives of a shape

A union among the members of a union adds nothing but its own members. The
`alternatives` of a shape are what is left when all such unions are taken apart:
none of them is a union. A shape means the union of its alternatives, and if no
union in it is empty its text is theirs, with bars between them.
-/
namespace Conformance.Shape

mutual
def alternatives : Shape → List Shape
  | union members => alternativesOfAll members
  | t => [t]
def alternativesOfAll : List Shape → List Shape
  | [] => []
  | t :: ts => alternatives t ++ alternativesOfAll ts
end

theorem mem_alternativesOfAll {s : Shape} {ts : List Shape} :
    s ∈ alternativesOfAll ts ↔ ∃ t ∈ ts, s ∈ t.alternatives := by
  induction ts with
  | nil => simp [alternativesOfAll]
  | cons t ts ih => simp [alternativesOfAll, ih]

theorem isUnion_of_mem_alternatives {s t : Shape} (h : s ∈ t.alternatives) :
    s.isUnion = false := by
  induction t with
  | union members ih =>
    obtain ⟨m, hm, hs⟩ := mem_alternativesOfAll.1 h
    exact ih m hm hs
  | _ =>
    obtain rfl := List.mem_singleton.1 h
    rfl

theorem mem_nodes_of_mem_alternatives {s t : Shape} (h : s ∈ t.alternatives) : s ∈ t.nodes := by
  induction t with
  | union members ih =>
    obtain ⟨m, hm, hs⟩ := mem_alternativesOfAll.1 h
    exact mem_nodes.2 (.inr ⟨m, hm, ih m hm hs⟩)
  | _ => exact List.mem_singleton.1 h ▸ mem_nodes_self _

theorem equivalent_alternatives (t : Shape) : t.Equivalent (union t.alternatives) := by
  intro v
  induction t with
  | union members ih =>
    constructor
    · intro h
      cases h with
      | union hm h =>
        cases (ih _ hm).1 h with
        | union hs h => exact .union (mem_alternativesOfAll.2 ⟨_, hm, hs⟩) h
    · intro h
      cases h with
      | union hs h =>
        obtain ⟨m, hm, hs⟩ := mem_alternativesOfAll.1 hs
        exact .union hm ((ih m hm).2 (.union hs h))
  | _ =>
    constructor
    · intro h
      exact .union List.mem_cons_self h
    · intro h
      cases h with
      | union hs h => exact List.mem_singleton.1 hs ▸ h

theorem intercalate_append {α : Type} {sep : List α} {xs ys : List (List α)} (hx : xs ≠ [])
    (hy : ys ≠ []) :
    sep.intercalate (xs ++ ys) = sep.intercalate xs ++ sep ++ sep.intercalate ys := by
  induction xs with
  | nil => exact absurd rfl hx
  | cons x xs ih =>
    cases xs with
    | nil => rw [List.singleton_append, List.intercalate_cons_of_ne_nil hy,
        List.intercalate_singleton]
    | cons x' xs =>
      rw [List.cons_append, List.intercalate_cons_of_ne_nil (by simp),
        ih (List.cons_ne_nil x' xs), List.intercalate_cons_of_ne_nil (List.cons_ne_nil x' xs)]
      simp only [List.append_assoc]

theorem texts_eq_map (ts : List Shape) : texts ts = ts.map text := by
  induction ts with
  | nil => rfl
  | cons t ts ih => rw [texts, ih, List.map_cons]

def FreeOfEmptyUnions (t : Shape) : Prop := union [] ∉ t.nodes

theorem FreeOfEmptyUnions.part {p t : Shape} (h : t.FreeOfEmptyUnions) (hp : p ∈ t.parts) :
    p.FreeOfEmptyUnions :=
  fun hn => h (mem_nodes.2 (.inr ⟨p, hp, hn⟩))

theorem alternatives_ne_nil {t : Shape} (h : t.FreeOfEmptyUnions) : t.alternatives ≠ [] := by
  induction t with
  | union members ih =>
    cases members with
    | nil => exact absurd (mem_nodes.2 (.inl rfl)) h
    | cons m ms =>
      intro hn
      exact ih m List.mem_cons_self (h.part List.mem_cons_self)
        (List.append_eq_nil_iff.1 hn).1
  | _ => exact List.cons_ne_nil _ _

theorem intercalate_alternatives {sep : List Char} {ms : List Shape}
    (hne : ∀ m ∈ ms, m.alternatives ≠ [])
    (h : ∀ m ∈ ms, m.text = sep.intercalate (m.alternatives.map text)) :
    sep.intercalate (ms.map text) = sep.intercalate ((alternativesOfAll ms).map text) := by
  induction ms with
  | nil => rfl
  | cons m ms ih =>
    rw [List.forall_mem_cons] at hne h
    have hm : m.alternatives.map text ≠ [] := by simpa using hne.1
    rw [alternativesOfAll, List.map_cons, List.map_append, h.1]
    cases ms with
    | nil => simp [alternativesOfAll, List.intercalate_singleton]
    | cons m' ms =>
      have hms : (alternativesOfAll (m' :: ms)).map text ≠ [] := by
        simp [alternativesOfAll, hne.2 m' List.mem_cons_self]
      rw [List.intercalate_cons_of_ne_nil (by simp), ih hne.2 h.2, intercalate_append hm hms]

theorem text_eq_alternatives {t : Shape} (h : t.FreeOfEmptyUnions) :
    t.text = [' ', '|', ' '].intercalate (t.alternatives.map text) := by
  induction t with
  | union members ih =>
    have hp m (hm : m ∈ members) : m.FreeOfEmptyUnions := h.part hm
    rw [text, alternatives, texts_eq_map]
    exact intercalate_alternatives (fun m hm => alternatives_ne_nil (hp m hm))
      fun m hm => ih m hm (hp m hm)
  | _ => exact List.intercalate_singleton.symm

end Conformance.Shape
