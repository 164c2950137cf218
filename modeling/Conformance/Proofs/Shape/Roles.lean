import Conformance.Proofs.Shape.WireDocuments

/-!
# Roles in a wire document

What a part of a wire document has to be follows from the role in which it is
read: as a shape, as the fields of a record, as the key of a field and so on.
`Role.declared` is the table of the wire form. It lists the members that an
object must have in its role, in their order, each with the role in which it is
read; an object that is read as a shape begins with its tag, and the tag says
what follows.
-/
namespace Conformance

inductive Role
  | shape
  | shapes
  | field
  | fields
  | tag
  | key
  | mark
  | primitive
  | literal
  | wildcard
deriving DecidableEq

namespace Role

def declaredBy (tag : String) : List (String × Role) :=
  match tag with
  | "record" => [("fields", fields)]
  | "tuple" => [("elementTypes", shapes)]
  | "array" => [("elementType", shape)]
  | "union" => [("types", shapes)]
  | "primitive" => [("type", primitive)]
  | "literal" => [("value", literal)]
  | "other" => [("type", wildcard)]
  | _ => []

def declared (role : Role) (members : Entries Json) : List (String × Role) :=
  match role with
  | shape =>
    ("tag", tag) ::
      match members.get? "tag" with
      | some (.string name) => declaredBy name
      | _ => []
  | field => [("key", key), ("value", shape), ("isOptional", mark)]
  | _ => []

def item? : Role → Option Role
  | shapes => some shape
  | fields => some field
  | _ => none

def present (role : Role) (members : Entries Json) : List (String × Role × Json) :=
  (role.declared members).filterMap fun d => (members.get? d.1).map fun j => (d.1, d.2, j)

section
variable {role q r : Role} {members : Entries Json} {name n : String} {j u : Json}

theorem mem_present :
    (name, q, j) ∈ role.present members ↔
      (name, q) ∈ role.declared members ∧ members.get? name = some j := by
  simp only [present, List.mem_filterMap, Option.map_eq_some_iff, Prod.mk.injEq, Prod.exists]
  constructor
  · intro h
    obtain ⟨_, _, hd, _, hj, rfl, rfl, rfl⟩ := h
    exact ⟨hd, hj⟩
  · intro h
    exact ⟨name, q, h.1, j, h.2, rfl, rfl, rfl⟩

theorem declared_shape (ht : members.get? "tag" = some (.string n)) :
    shape.declared members = ("tag", tag) :: declaredBy n := by
  simp [declared, ht]

def Accepts (role : Role) (j : Json) : Prop :=
  match role with
  | shape => ∃ t, j.Describes t
  | shapes => ∃ items, j = .array items ∧ ∀ i ∈ items, ∃ t, i.Describes t
  | field => ∃ f, j.DescribesField f
  | fields => ∃ items, j = .array items ∧ ∀ i ∈ items, ∃ f, i.DescribesField f
  | tag => ∃ form : Shape.Tag, j = .string form.name
  | key => ∃ s, j = .string s
  | mark => ∃ b, j = .boolean b
  | primitive => ∃ kind, j.SpellsPrimitive kind
  | literal => ∃ value, j.SpellsLiteral value
  | wildcard => ∃ kind, j.SpellsWildcard kind

theorem accepts_item {items : List Json} (hq : role.item? = some q)
    (ha : role.Accepts (.array items)) (hj : j ∈ items) : q.Accepts j := by
  cases role <;> cases hq
  · obtain ⟨_, hi, h⟩ := ha
    cases hi
    exact h j hj
  · obtain ⟨_, hi, h⟩ := ha
    cases hi
    exact h j hj

theorem accepts_of_tagged (form : Shape.Tag)
    (ht : members.get? "tag" = some (.string form.name))
    (hd : declaredBy form.name = [(n, r)]) (hu : members.get? n = some u) (ha : r.Accepts u)
    (hm : (name, q) ∈ shape.declared members) (hj : members.get? name = some j) :
    q.Accepts j := by
  rw [declared_shape ht, hd] at hm
  simp only [List.mem_cons, Prod.mk.injEq, List.not_mem_nil, or_false] at hm
  rcases hm with ⟨rfl, rfl⟩ | ⟨rfl, rfl⟩
  · rw [ht] at hj
    cases hj
    exact ⟨form, rfl⟩
  · rw [hu] at hj
    cases hj
    exact ha

theorem accepts_member (ha : role.Accepts (.object members))
    (hd : (name, q) ∈ role.declared members) (hj : members.get? name = some j) :
    q.Accepts j := by
  cases role with
  | shape =>
    obtain ⟨t, ht⟩ := ha
    cases ht with
    | record ht hl each _ =>
      exact accepts_of_tagged .record ht rfl hl ⟨_, rfl, exists_of_forall₂ each⟩ hd hj
    | tuple ht hl each =>
      exact accepts_of_tagged .tuple ht rfl hl ⟨_, rfl, exists_of_forall₂ each⟩ hd hj
    | array ht hu h => exact accepts_of_tagged .array ht rfl hu ⟨_, h⟩ hd hj
    | union ht hl each =>
      exact accepts_of_tagged .union ht rfl hl ⟨_, rfl, exists_of_forall₂ each⟩ hd hj
    | primitive ht hu h => exact accepts_of_tagged .primitive ht rfl hu ⟨_, h⟩ hd hj
    | literal ht hu h => exact accepts_of_tagged .literal ht rfl hu ⟨_, h⟩ hd hj
    | other ht hu h => exact accepts_of_tagged .other ht rfl hu ⟨_, h⟩ hd hj
  | field =>
    obtain ⟨f, hf⟩ := ha
    cases hf with
    | mk hk hv h ho =>
      simp only [declared, List.mem_cons, Prod.mk.injEq, List.not_mem_nil, or_false] at hd
      rcases hd with ⟨rfl, rfl⟩ | ⟨rfl, rfl⟩ | ⟨rfl, rfl⟩
      · rw [hk] at hj
        cases hj
        exact ⟨_, rfl⟩
      · rw [hv] at hj
        cases hj
        exact ⟨_, h⟩
      · rw [ho] at hj
        cases hj
        exact ⟨_, rfl⟩
  | _ => cases hd

end

end Role

/-- `PartOf u r j role`: in a document `j` that is read as `role` the part `u` is read as `r`. -/
inductive Json.PartOf (u : Json) (r : Role) : Json → Role → Prop
  | self : PartOf u r u r
  | member {members : Entries Json} {role q : Role} {name : String} {j : Json}
      (declared : (name, q) ∈ role.declared members) (present : members.get? name = some j)
      (h : PartOf u r j q) : PartOf u r (.object members) role
  | item {items : List Json} {role q : Role} {j : Json} (hq : role.item? = some q)
      (mem : j ∈ items) (h : PartOf u r j q) : PartOf u r (.array items) role

theorem Role.accepts_of_partOf {u j : Json} {r role : Role} (h : u.PartOf r j role)
    (ha : role.Accepts j) : r.Accepts u := by
  induction h with
  | self => exact ha
  | member hd hj _ ih => exact ih (accepts_member ha hd hj)
  | item hq hm _ ih => exact ih (accepts_item hq ha hm)

end Conformance
