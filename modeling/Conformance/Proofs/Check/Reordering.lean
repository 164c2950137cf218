import Conformance.Proofs.Check.Widening

/-!
# Declared order

The fields of a record and the members of a union are gone through in their
order, up to the first that decides. `Reordered` relates a shape to those that
have their fields and members in other orders, in any number of records and
unions and at any depth. A record asks for all of its fields and a union for one
of its members, so the order makes no difference to what conforms, and reordered
shapes accept the same values. It is only seen in what is reported of the others.
-/
namespace Conformance.Shape

mutual
/-- The same shape, with fields and members in any order; the elements of tuples keep theirs. -/
inductive Reordered : Shape → Shape → Prop
  | record {fs gs hs : List (Field Shape)} (each : List.Forall₂ FieldReordered fs gs)
      (order : gs.Perm hs) : Reordered (.record fs) (.record hs)
  | tuple {ts us : List Shape} (each : List.Forall₂ Reordered ts us) :
      Reordered (.tuple ts) (.tuple us)
  | array {t u : Shape} (h : Reordered t u) : Reordered (.array t) (.array u)
  | union {ts us ws : List Shape} (each : List.Forall₂ Reordered ts us) (order : us.Perm ws) :
      Reordered (.union ts) (.union ws)
  | primitive (kind : Primitive) : Reordered (.primitive kind) (.primitive kind)
  | literal (value : Literal) : Reordered (.literal value) (.literal value)
  | other (kind : Wildcard) : Reordered (.other kind) (.other kind)
inductive FieldReordered : Field Shape → Field Shape → Prop
  | mk {key : String} {t u : Shape} {optional : Bool} (h : Reordered t u) :
      FieldReordered ⟨key, t, optional⟩ ⟨key, u, optional⟩
end

theorem within_record_of_subset {fs gs : List (Field Shape)} (h : gs ⊆ fs) :
    (record fs).Within (record gs) := by
  apply within_record
  intro g hg
  exact ⟨g, h hg, FieldWithin.refl g⟩

theorem within_union_of_subset {ts us : List Shape} (h : ts ⊆ us) :
    (union ts).Within (union us) := by
  apply within_union
  intro t ht
  exact ⟨t, h ht, Within.refl t⟩

theorem equivalent_record_of_perm {fs gs : List (Field Shape)} (h : fs.Perm gs) :
    (record fs).Equivalent (record gs) :=
  equivalent_iff_within.2
    ⟨within_record_of_subset h.symm.subset, within_record_of_subset h.subset⟩

theorem equivalent_union_of_perm {ts us : List Shape} (h : ts.Perm us) :
    (union ts).Equivalent (union us) :=
  equivalent_iff_within.2
    ⟨within_union_of_subset h.subset, within_union_of_subset h.symm.subset⟩

section
variable {t u : Shape}

theorem Reordered.equivalent (h : Reordered t u) : t.Equivalent u := by
  induction t generalizing u with
  | record fields ih =>
    cases h with
    | @record _ gs _ each order =>
      have he : List.Forall₂ FieldEquivalent fields gs := by
        apply forall₂_imp_mem _ each
        rintro f hf _ ⟨h⟩
        exact ⟨rfl, rfl, ih _ hf h⟩
      exact (equivalent_record he).trans (equivalent_record_of_perm order)
  | tuple elements ih =>
    cases h with
    | tuple each => exact equivalent_tuple (forall₂_imp_mem (fun t ht _ => ih t ht) each)
  | array element ih =>
    cases h with
    | array h => exact equivalent_array (ih h)
  | union members ih =>
    cases h with
    | union each order =>
      have he := forall₂_imp_mem (fun t ht _ => ih t ht) each
      exact (equivalent_union he).trans (equivalent_union_of_perm order)
  | _ =>
    cases h
    exact Equivalent.refl _

/-- A shape accepts a value, and hands it back, exactly when the shape with its fields and members
in other orders does. -/
theorem accept_iff_of_reordered (h : Reordered t u) (v w : Value) :
    t.accept v = .ok w ↔ u.accept v = .ok w :=
  h.equivalent.accept_iff v w

end

theorem Reordered.refl (t : Shape) : Reordered t t := by
  induction t with
  | record fields ih =>
    exact .record (List.forall₂_same.2 fun f hf => .mk (ih f hf)) (.refl fields)
  | tuple elements ih => exact .tuple (List.forall₂_same.2 ih)
  | array element ih => exact .array ih
  | union members ih => exact .union (List.forall₂_same.2 ih) (.refl members)
  | primitive kind => exact .primitive kind
  | literal value => exact .literal value
  | other kind => exact .other kind

def idAndNotes : Shape :=
  record [⟨"id", union [primitive .string, primitive .number, primitive .string], false⟩,
    ⟨"notes", array (record [⟨"at", primitive .number, false⟩, ⟨"by", other .any, true⟩]), true⟩,
    ⟨"id", other .unknown, true⟩]

def notesAndId : Shape :=
  record [⟨"id", other .unknown, true⟩,
    ⟨"notes", array (record [⟨"by", other .any, true⟩, ⟨"at", primitive .number, false⟩]), true⟩,
    ⟨"id", union [primitive .number, primitive .string, primitive .string], false⟩]

def noted : Value :=
  .object [("id", .string "n1"), ("notes", .array [.object [("at", .number (.finite .zero))]])]

theorem accept_iff_of_reordered_notes :
    Reordered idAndNotes notesAndId ∧ notesAndId.accept noted = .ok noted := by
  have hid : Reordered (union [primitive .string, primitive .number, primitive .string])
      (union [primitive .number, primitive .string, primitive .string]) :=
    .union (List.forall₂_same.2 fun t _ => .refl t) (.swap _ _ _)
  have hnote : Reordered
      (record [⟨"at", primitive .number, false⟩, ⟨"by", other .any, true⟩])
      (record [⟨"by", other .any, true⟩, ⟨"at", primitive .number, false⟩]) :=
    .record (List.forall₂_same.2 fun f _ => .mk (.refl f.value)) (.swap _ _ _)
  have hr : Reordered idAndNotes notesAndId := by
    apply Reordered.record
      (.cons (.mk hid) (.cons (.mk (.array hnote)) (.cons (.mk (.refl _)) .nil)))
    exact (List.reverse_perm _).symm
  exact ⟨hr, (accept_iff_of_reordered hr noted noted).1 rfl⟩

-- The order is seen in what is reported: each reports the first field that is missing.
example : (record [⟨"a", other .any, false⟩, ⟨"b", other .any, false⟩]).accept (.object []) =
      .error (.missingField "a") ∧
    (record [⟨"b", other .any, false⟩, ⟨"a", other .any, false⟩]).accept (.object []) =
      .error (.missingField "b") := ⟨rfl, rfl⟩

end Conformance.Shape
