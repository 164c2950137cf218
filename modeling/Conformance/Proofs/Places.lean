import Conformance.Json.Address
import Conformance.Proofs.Entries
import Conformance.Value

/-!
# Places in documents and values

An address leads to at most one place in a document or a value: an index to the
item that has it in an array, a key to what stands under it in an object. A value
occurs in another if it stands at some place there. Where no key comes twice every
member has a place of its own.
-/
namespace Conformance

def Json.at? (j : Json) : Address → Option Json
  | [] => some j
  | .key name :: a =>
    match j with
    | object members => (Entries.get? members name).bind fun j => at? j a
    | _ => none
  | .index i :: a =>
    match j with
    | array items => items[i]?.bind fun j => at? j a
    | _ => none
  | .unknown :: _ => none

namespace Value

def at? (v : Value) : Address → Option Value
  | [] => some v
  | .key name :: a =>
    match v with
    | object members => (Entries.get? members name).bind fun v => at? v a
    | _ => none
  | .index i :: a =>
    match v with
    | array items => items[i]?.bind fun v => at? v a
    | _ => none
  | .unknown :: _ => none

def OccursIn (u v : Value) : Prop := ∃ a, v.at? a = some u

section
variable {u v : Value} {items : List Value} {members : Entries Value}

theorem occursIn_self (v : Value) : v.OccursIn v := ⟨[], rfl⟩

theorem occursIn_array :
    u.OccursIn (array items) ↔ u = array items ∨ ∃ v ∈ items, u.OccursIn v := by
  constructor
  · intro h
    obtain ⟨_ | ⟨_ | _ | _, a⟩, h⟩ := h
    · exact .inl (Option.some.inj h).symm
    · obtain ⟨v, hv, h⟩ := Option.bind_eq_some_iff.1 h
      exact .inr ⟨v, List.mem_of_getElem? hv, a, h⟩
    · cases h
    · cases h
  · intro h
    rcases h with rfl | ⟨v, hv, a, h⟩
    · exact occursIn_self _
    · obtain ⟨i, hi⟩ := List.getElem?_of_mem hv
      exact ⟨.index i :: a, Option.bind_eq_some_iff.2 ⟨v, hi, h⟩⟩

theorem occursIn_object (hd : members.Distinct) :
    u.OccursIn (object members) ↔ u = object members ∨ ∃ m ∈ members, u.OccursIn m.2 := by
  constructor
  · intro h
    obtain ⟨_ | ⟨_ | name | _, a⟩, h⟩ := h
    · exact .inl (Option.some.inj h).symm
    · cases h
    · obtain ⟨v, hv, h⟩ := Option.bind_eq_some_iff.1 h
      exact .inr ⟨(name, v), Entries.mem_of_get? hv, a, h⟩
    · cases h
  · intro h
    rcases h with rfl | ⟨m, hm, a, h⟩
    · exact occursIn_self _
    · exact ⟨.key m.1 :: a, Option.bind_eq_some_iff.2 ⟨m.2, Entries.get?_of_mem hd hm, h⟩⟩

theorem occursIn_scalar (h : v.kind ∉ [Kind.array, .object]) : u.OccursIn v ↔ u = v := by
  constructor
  · intro hu
    obtain ⟨_ | ⟨_ | _ | _, a⟩, hu⟩ := hu
    · exact (Option.some.inj hu).symm
    · cases v with
      | array items => simp [kind] at h
      | _ => cases hu
    · cases v with
      | object members => simp [kind] at h
      | _ => cases hu
    · cases hu
  · rintro rfl
    exact occursIn_self u

end

end Value
end Conformance
