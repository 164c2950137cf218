import Conformance.Shape
import Mathlib.Logic.Basic

/-!
# The nodes of a shape

Shapes nest through lists of elements, members and fields. `byParts` is the
induction that goes with this: what passes from the parts of a shape to the
shape holds of every shape. `nodes` lists a shape and all shapes inside it, so
that a condition on a shape "at any depth" is a condition on its nodes.
-/
namespace Conformance.Shape

@[elab_as_elim, induction_eliminator]
theorem byParts {motive : Shape → Prop}
    (record : ∀ fields : List (Field Shape), (∀ f ∈ fields, motive f.value) →
      motive (.record fields))
    (tuple : ∀ elements : List Shape, (∀ t ∈ elements, motive t) → motive (.tuple elements))
    (array : ∀ element : Shape, motive element → motive (.array element))
    (union : ∀ members : List Shape, (∀ t ∈ members, motive t) → motive (.union members))
    (primitive : ∀ kind, motive (.primitive kind))
    (literal : ∀ value, motive (.literal value))
    (other : ∀ kind, motive (.other kind)) : ∀ t, motive t
  | .record fields =>
    record fields fun f _ => byParts record tuple array union primitive literal other f.value
  | .tuple elements =>
    tuple elements fun t _ => byParts record tuple array union primitive literal other t
  | .array element =>
    array element (byParts record tuple array union primitive literal other element)
  | .union members =>
    union members fun t _ => byParts record tuple array union primitive literal other t
  | .primitive kind => primitive kind
  | .literal value => literal value
  | .other kind => other kind
termination_by t => sizeOf t
decreasing_by
  · rename_i hf
    have hs := List.sizeOf_lt_of_mem hf
    cases f
    simp only [Shape.record.sizeOf_spec, Field.mk.sizeOf_spec] at hs ⊢
    omega
  · rename_i ht
    have hs := List.sizeOf_lt_of_mem ht
    simp only [Shape.tuple.sizeOf_spec]
    omega
  · simp
  · rename_i ht
    have hs := List.sizeOf_lt_of_mem ht
    simp only [Shape.union.sizeOf_spec]
    omega

mutual
def nodes : Shape → List Shape
  | record fields => record fields :: nodesOfFields fields
  | tuple elements => tuple elements :: nodesOfAll elements
  | array element => array element :: nodes element
  | union members => union members :: nodesOfAll members
  | primitive kind => [primitive kind]
  | literal value => [literal value]
  | other kind => [other kind]
def nodesOfAll : List Shape → List Shape
  | [] => []
  | t :: ts => nodes t ++ nodesOfAll ts
def nodesOfFields : List (Field Shape) → List Shape
  | [] => []
  | ⟨_, value, _⟩ :: fs => nodes value ++ nodesOfFields fs
end

theorem mem_nodesOfAll {s : Shape} {ts : List Shape} :
    s ∈ nodesOfAll ts ↔ ∃ t ∈ ts, s ∈ t.nodes := by
  induction ts with
  | nil => simp [nodesOfAll]
  | cons t ts ih => simp [nodesOfAll, ih]

theorem mem_nodesOfFields {s : Shape} {fs : List (Field Shape)} :
    s ∈ nodesOfFields fs ↔ ∃ f ∈ fs, s ∈ f.value.nodes := by
  induction fs with
  | nil => simp [nodesOfFields]
  | cons f fs ih => simp [nodesOfFields, ih]

def parts : Shape → List Shape
  | record fields => fields.map Field.value
  | tuple elements => elements
  | array element => [element]
  | union members => members
  | primitive _ | literal _ | other _ => []

theorem mem_nodes {s t : Shape} : s ∈ t.nodes ↔ s = t ∨ ∃ p ∈ t.parts, s ∈ p.nodes := by
  cases t <;> simp [nodes, parts, mem_nodesOfAll, mem_nodesOfFields]

theorem mem_nodes_self (t : Shape) : t ∈ t.nodes := mem_nodes.2 (.inl rfl)

theorem mem_nodes_of_mem_parts {p t : Shape} (h : p ∈ t.parts) : p ∈ t.nodes :=
  mem_nodes.2 (.inr ⟨p, h, mem_nodes_self p⟩)

theorem byAllParts {motive : Shape → Prop} (h : ∀ t, (∀ p ∈ t.parts, motive p) → motive t)
    (t : Shape) : motive t := by
  induction t with
  | record fields ih => exact h _ (List.forall_mem_map.2 ih)
  | tuple elements ih => exact h _ ih
  | array element ih => exact h _ (List.forall_mem_singleton.2 ih)
  | union members ih => exact h _ ih
  | _ => exact h _ nofun

theorem mem_nodes_trans {r s t : Shape} (hr : r ∈ s.nodes) (hs : s ∈ t.nodes) : r ∈ t.nodes := by
  induction t using byAllParts with
  | h t ih =>
    rcases mem_nodes.1 hs with rfl | ⟨p, hp, hs⟩
    · exact hr
    · exact mem_nodes.2 (.inr ⟨p, hp, ih p hp hs⟩)

def KeysDistinct (t : Shape) : Prop :=
  ∀ fields, record fields ∈ t.nodes → (fields.map Field.key).Nodup

def EveryNumber (P : Double → Prop) (t : Shape) : Prop :=
  ∀ x, literal (.number x) ∈ t.nodes → P x

theorem keysDistinct_iff {t : Shape} :
    t.KeysDistinct ↔
      (∀ fields, record fields = t → (fields.map Field.key).Nodup) ∧
        ∀ p ∈ t.parts, p.KeysDistinct := by
  simp only [KeysDistinct, mem_nodes (t := t)]
  constructor
  · intro h
    refine ⟨fun fields ht => h fields (.inl ht), fun p hp fields hf => ?_⟩
    exact h fields (.inr ⟨p, hp, hf⟩)
  · intro h fields hf
    obtain ⟨ht, hp⟩ := h
    rcases hf with h | ⟨p, hm, h⟩
    · exact ht fields h
    · exact hp p hm fields h

theorem everyNumber_iff {P : Double → Prop} {t : Shape} :
    t.EveryNumber P ↔
      (∀ x, literal (.number x) = t → P x) ∧ ∀ p ∈ t.parts, p.EveryNumber P := by
  simp only [EveryNumber, mem_nodes (t := t)]
  constructor
  · intro h
    exact ⟨fun x ht => h x (.inl ht), fun p hp x hx => h x (.inr ⟨p, hp, hx⟩)⟩
  · intro h x hx
    obtain ⟨ht, hp⟩ := h
    rcases hx with h | ⟨p, hm, h⟩
    · exact ht x h
    · exact hp p hm x h

end Conformance.Shape
