import Conformance.Proofs.Entries
import Conformance.Proofs.Gate
import Conformance.Proofs.Shape.Roles

/-!
# Declared members decide

The decoder looks for members by the names that are declared for an object in its
role, and at nothing else in it. `Json.AlikeAs role` relates documents that have
the same under these names, in whatever order and among whatever other members,
at every depth; leaves are the same. Documents that are alike are read alike:
they give the same shape, or are refused at the same address with the same words.
-/
namespace Conformance

inductive Json.AlikeAs : Role → Json → Json → Prop
  | same (role : Role) (j : Json) : AlikeAs role j j
  | object {role : Role} {ms ns : Entries Json} (hr : role = .shape ∨ role = .field)
      (absent : ∀ d ∈ role.declared ms, ms.get? d.1 = none ↔ ns.get? d.1 = none)
      (present : ∀ d ∈ role.declared ms, ∀ j k, ms.get? d.1 = some j → ns.get? d.1 = some k →
        AlikeAs d.2 j k) : AlikeAs role (.object ms) (.object ns)
  | array {role q : Role} {js ks : List Json} (hq : role.item? = some q)
      (length : js.length = ks.length)
      (each : ∀ (i : Nat) (j k : Json), js[i]? = some j → ks[i]? = some k → AlikeAs q j k) :
      AlikeAs role (.array js) (.array ks)

namespace Json.AlikeAs

variable {role : Role} {ms ns before after : Entries Json} {name : String} {j : Json}

theorem of_get? (hr : role = .shape ∨ role = .field)
    (h : ∀ d ∈ role.declared ms, ms.get? d.1 = ns.get? d.1) :
    AlikeAs role (.object ms) (.object ns) := by
  apply AlikeAs.object hr
  · intro d hd
    rw [h d hd]
  · intro d hd j _ hj hk
    rw [← h d hd, hj] at hk
    cases hk
    exact .same d.2 j

theorem of_perm (hr : role = .shape ∨ role = .field) (hd : ms.Distinct) (h : ms.Perm ns) :
    AlikeAs role (.object ms) (.object ns) :=
  of_get? hr fun d _ => Entries.get?_of_perm hd h d.1

theorem of_undeclared (hr : role = .shape ∨ role = .field)
    (h : name ∉ (role.declared (before ++ after)).map Prod.fst) :
    AlikeAs role (.object (before ++ after)) (.object (before ++ (name, j) :: after)) := by
  apply of_get? hr
  intro d hd
  have hn : name ≠ d.1 := fun hn => h (hn ▸ List.mem_map_of_mem hd)
  rw [Entries.get?_append, Entries.get?_append, Entries.get?, if_neg hn]

theorem tagged {q : Role} {tag : String} {k : Json} (hm : ms.get? "tag" = some (.string tag))
    (hn : ns.get? "tag" = some (.string tag)) (hd : Role.declaredBy tag = [(name, q)])
    (hj : ms.get? name = some j) (hk : ns.get? name = some k) (h : AlikeAs q j k) :
    AlikeAs .shape (.object ms) (.object ns) := by
  have hdecl : Role.shape.declared ms = [("tag", .tag), (name, q)] := by
    rw [Role.declared_shape hm, hd]
  apply AlikeAs.object (.inl rfl)
  · simp [hdecl, hm, hn, hj, hk]
  · rw [hdecl]
    simp only [List.forall_mem_cons, hm, hn, hj, hk, Option.some.injEq]
    refine ⟨?_, ?_, nofun⟩
    · rintro _ _ rfl rfl
      exact .same _ _
    · rintro _ _ rfl rfl
      exact h

theorem of_forall₂ {q : Role} {js ks : List Json} (hq : role.item? = some q)
    (h : List.Forall₂ (AlikeAs q) js ks) : AlikeAs role (.array js) (.array ks) := by
  apply AlikeAs.array hq h.length_eq
  intro i j k hj hk
  obtain ⟨hi, rfl⟩ := List.getElem?_eq_some_iff.1 hj
  obtain ⟨hi', rfl⟩ := List.getElem?_eq_some_iff.1 hk
  exact h.get hi hi'

end Json.AlikeAs

namespace Shape

section
variable {α : Type} {read : Json → Except Rejection α} {ms ns : Entries Json} {key : String}

theorem leaf_congr (h : Option.Rel (fun j k => read j = read k) (ms.get? key) (ns.get? key)) :
    leaf read ms key = leaf read ns key := by
  rw [leaf, leaf, member, member]
  generalize ms.get? key = x, ns.get? key = y at h
  cases h with
  | none => rfl
  | some h =>
    dsimp only
    rw [h]

theorem leaf_congr_get? (h : ms.get? key = ns.get? key) : leaf read ms key = leaf read ns key := by
  rw [leaf, leaf, member, member, h]

theorem treeOfItems_congr {i : Nat} {js ks : List Json}
    (h : List.Forall₂ (fun j k => read j = read k) js ks) :
    Codec.treeOfItems read i js = Codec.treeOfItems read i ks := by
  induction h generalizing i with
  | nil => rfl
  | cons hjk _ ih => rw [Codec.treeOfItems, Codec.treeOfItems, hjk, ih]

end
end Shape

open Shape

namespace Role

def SameReading (role : Role) (j k : Json) : Prop :=
  match role with
  | shape => ofJson j = ofJson k
  | shapes => listOf ofJson j = listOf ofJson k
  | field => fieldOf j = fieldOf k
  | fields => listOf fieldOf j = listOf fieldOf k
  | _ => j = k

variable {role q : Role} {j k : Json} {ms ns : Entries Json} {js ks : List Json}

theorem sameReading_refl (role : Role) (j : Json) : role.SameReading j j := by
  cases role <;> rfl

theorem sameReading_array (hq : role.item? = some q) (h : List.Forall₂ q.SameReading js ks) :
    role.SameReading (.array js) (.array ks) := by
  cases role with
  | shapes =>
    cases hq
    exact treeOfItems_congr h
  | fields =>
    cases hq
    exact treeOfItems_congr h
  | _ => cases hq

def SameMembers (role : Role) (ms ns : Entries Json) : Prop :=
  ∀ d ∈ role.declared ms, Option.Rel d.2.SameReading (ms.get? d.1) (ns.get? d.1)

theorem eq_of_rel {x y : Option Json} (h : Option.Rel (fun j k => j = k) x y) : x = y := by
  cases h with
  | none => rfl
  | some h => exact congrArg some h

theorem ofTagged_congr {form : Tag} (h : shape.SameMembers ms ns)
    (ht : ms.get? "tag" = some (.string form.name)) : ofTagged ms form = ofTagged ns form := by
  rw [SameMembers, declared_shape ht, List.forall_mem_cons] at h
  have hd := h.2
  cases form with
  | record => rw [ofTagged, ofTagged, leaf_congr (hd ("fields", fields) List.mem_cons_self)]
  | tuple => rw [ofTagged, ofTagged, leaf_congr (hd ("elementTypes", shapes) List.mem_cons_self)]
  | array => rw [ofTagged, ofTagged, leaf_congr (hd ("elementType", shape) List.mem_cons_self)]
  | union => rw [ofTagged, ofTagged, leaf_congr (hd ("types", shapes) List.mem_cons_self)]
  | primitive =>
    have hk := eq_of_rel (hd ("type", primitive) List.mem_cons_self)
    rw [ofTagged, ofTagged, leaf_congr_get? hk]
  | literal =>
    have hk := eq_of_rel (hd ("value", literal) List.mem_cons_self)
    rw [ofTagged, ofTagged, leaf_congr_get? hk]
  | other =>
    have hk := eq_of_rel (hd ("type", wildcard) List.mem_cons_self)
    rw [ofTagged, ofTagged, leaf_congr_get? hk]

theorem sameReading_shape (h : shape.SameMembers ms ns) :
    shape.SameReading (.object ms) (.object ns) := by
  have ht := eq_of_rel (h ("tag", tag) List.mem_cons_self)
  rw [SameReading, ofJson_object, ofJson_object, ← leaf_congr_get? ht]
  cases hf : leaf Tag.ofJson ms "tag" with
  | error r => rfl
  | ok form =>
    obtain ⟨j, hj, hform⟩ := leaf_eq_ok_iff.1 hf
    obtain rfl := Tag.ofJson_eq_ok_iff.1 hform
    exact ofTagged_congr h hj

theorem sameReading_field (h : field.SameMembers ms ns) :
    field.SameReading (.object ms) (.object ns) := by
  have hk := eq_of_rel (h ("key", key) (by simp [declared]))
  have hv := h ("value", shape) (by simp [declared])
  have ho := eq_of_rel (h ("isOptional", mark) (by simp [declared]))
  rw [SameReading, fieldOf_object, fieldOf_object, leaf_congr_get? hk, leaf_congr hv,
    leaf_congr_get? ho]

theorem sameReading_of_alikeAs (h : j.AlikeAs role k) : role.SameReading j k := by
  induction h with
  | same role j => exact sameReading_refl role j
  | @object role ms ns hr absent present ih =>
    have hm : role.SameMembers ms ns := by
      intro d hd
      have ha := absent d hd
      have hp := ih d hd
      generalize ms.get? d.1 = x, ns.get? d.1 = y at ha hp
      cases x with
      | none =>
        rw [ha.1 rfl]
        exact .none
      | some j =>
        cases y with
        | none => cases ha.2 rfl
        | some k => exact .some (hp j k rfl rfl)
    rcases hr with rfl | rfl
    · exact sameReading_shape hm
    · exact sameReading_field hm
  | array hq length each ih =>
    apply sameReading_array hq
    refine List.forall₂_iff_get.2 ⟨length, fun i hj hk => ?_⟩
    exact ih i _ _ (List.getElem?_eq_getElem hj) (List.getElem?_eq_getElem hk)

end Role

namespace Shape

/-- Documents that differ only in the order of members and in members that are not declared decode
to the same shape, or are both refused with the same address and message. -/
theorem decode_of_alike (j k : Json) (h : j.AlikeAs .shape k) :
    (∃ t, decode j = .ok t ∧ decode k = .ok t) ∨
      ∃ path message, decode j = .error (.malformedType path message) ∧
        decode k = .error (.malformedType path message) := by
  have hjk : ofJson j = ofJson k := Role.sameReading_of_alikeAs h
  have hd : decode k = decode j := by rw [decode, decode, decodeAt, decodeAt, hjk]
  rw [hd]
  cases hf : decode j with
  | ok t => exact .inl ⟨t, rfl, rfl⟩
  | error f =>
    obtain ⟨r, -, rfl⟩ := mapError_eq_error.1 hf
    exact .inr ⟨_, _, rfl, rfl⟩

def bareTuple : Json :=
  .object [("tag", .string "tuple"), ("elementTypes", .array [
    .object [("tag", .string "array"),
      ("elementType", .object [("tag", .string "other"), ("type", .string "any")])],
    .object [("tag", .string "function")]])]

def notedTuple : Json :=
  .object [("note", .null), ("elementTypes", .array [
    .object [("elementType", .object [("type", .string "any"), ("tag", .string "other")]),
      ("types", .boolean true), ("tag", .string "array")],
    .object [("arguments", .array []), ("tag", .string "function")]]), ("tag", .string "tuple")]

theorem decode_of_alike_notedTuple :
    bareTuple.AlikeAs .shape notedTuple ∧
      ∃ message, decode bareTuple = .error (.malformedType "elementTypes[1].tag" message) ∧
        decode notedTuple = .error (.malformedType "elementTypes[1].tag" message) := by
  have hany : Json.AlikeAs .shape (.object [("tag", .string "other"), ("type", .string "any")])
      (.object [("type", .string "any"), ("tag", .string "other")]) :=
    .of_perm (.inl rfl) (by simp [Entries.Distinct, Entries.keys]) (.swap _ _ _)
  have hfunction : Json.AlikeAs .shape (.object [("tag", .string "function")])
      (.object [("arguments", .array []), ("tag", .string "function")]) :=
    @Json.AlikeAs.of_undeclared _ [] _ _ _ (.inl rfl) (by decide)
  have h : bareTuple.AlikeAs .shape notedTuple :=
    .tagged rfl rfl rfl rfl rfl
      (.of_forall₂ rfl (.cons (.tagged rfl rfl rfl rfl rfl hany) (.cons hfunction .nil)))
  refine ⟨h, ?_⟩
  rcases decode_of_alike bareTuple notedTuple h with ⟨t, ht, -⟩ | ⟨path, message, hj, hk⟩
  · cases ht
  · cases hj
    exact ⟨_, rfl, hk⟩

end Shape
end Conformance
