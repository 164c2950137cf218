import Conformance.Proofs.Check.Inclusion

/-!
# Widening a part of a shape

A context is a shape with a hole at any depth, and filling it with a wider shape
gives a wider shape: every place where a shape can stand in another keeps the
relation `Within`. A record also gets wider when a field of it becomes optional
or is dropped, and a union when a member is added, wherever it stands among the
others. The value is arbitrary throughout, because the hole meets other parts of
it than the whole shape does.
-/
namespace Conformance.Shape

/-- A shape with one hole. -/
inductive Context
  | hole
  | array (element : Context)
  | tuple (before : List Shape) (element : Context) (after : List Shape)
  | union (before : List Shape) (member : Context) (after : List Shape)
  | record (before : List (Field Shape)) (key : String) (value : Context) (optional : Bool)
      (after : List (Field Shape))

def Context.fill (t : Shape) : Context → Shape
  | hole => t
  | array element => .array (element.fill t)
  | tuple before element after => .tuple (before ++ element.fill t :: after)
  | union before member after => .union (before ++ member.fill t :: after)
  | record before key value optional after =>
    .record (before ++ ⟨key, value.fill t, optional⟩ :: after)

def AcceptedBy (s t : Shape) : Prop := ∀ v w, s.accept v = .ok w → t.accept v = .ok w

variable {s t : Shape} {f g : Field Shape}

theorem acceptedBy_iff_within : s.AcceptedBy t ↔ s.Within t := by
  simp only [AcceptedBy, Within, accept_eq_ok_iff_check, check_eq_ok_iff]
  constructor
  · intro h v hv
    exact (h v v ⟨rfl, hv⟩).2
  · intro h v w hw
    exact ⟨hw.1, h v hw.2⟩

theorem Within.refl (t : Shape) : t.Within t := fun _ h => h

theorem FieldWithin.refl (f : Field Shape) : FieldWithin f f := ⟨rfl, id, Within.refl _⟩

section
variable {before after : List Shape}

theorem forall₂_within_replace (h : s.Within t) :
    List.Forall₂ Within (before ++ s :: after) (before ++ t :: after) := by
  have hrefl (ts : List Shape) : List.Forall₂ Within ts ts :=
    List.forall₂_same.2 fun t _ => Within.refl t
  exact List.rel_append (hrefl before) (.cons h (hrefl after))

theorem within_union_add (t : Shape) :
    (union (before ++ after)).Within (union (before ++ t :: after)) := by
  apply within_union
  intro a ha
  refine ⟨a, ?_, Within.refl a⟩
  rw [List.mem_append, List.mem_cons]
  exact (List.mem_append.1 ha).imp_right .inr

end

section
variable {before after : List (Field Shape)}

theorem within_record_replace (h : FieldWithin f g) :
    (record (before ++ f :: after)).Within (record (before ++ g :: after)) := by
  apply within_record
  intro g' hg
  rcases List.mem_append.1 hg with hg | hg
  · exact ⟨g', List.mem_append_left _ hg, FieldWithin.refl g'⟩
  · rcases List.mem_cons.1 hg with rfl | hg
    · exact ⟨f, List.mem_append_right _ List.mem_cons_self, h⟩
    · exact ⟨g', List.mem_append_right _ (List.mem_cons_of_mem _ hg), FieldWithin.refl g'⟩

theorem within_record_drop (f : Field Shape) :
    (record (before ++ f :: after)).Within (record (before ++ after)) := by
  apply within_record
  intro g hg
  refine ⟨g, ?_, FieldWithin.refl g⟩
  rw [List.mem_append, List.mem_cons]
  exact (List.mem_append.1 hg).imp_right .inr

end

theorem within_fill (C : Context) (h : s.Within t) : (C.fill s).Within (C.fill t) := by
  induction C with
  | hole => exact h
  | array element ih => exact within_array ih
  | tuple before element after ih => exact within_tuple (forall₂_within_replace ih)
  | union before member after ih =>
    exact within_union (exists_mem_of_forall₂ (forall₂_within_replace ih))
  | record before key value optional after ih => exact within_record_replace ⟨rfl, id, ih⟩

theorem acceptedBy_fill (C : Context) (h : s.Within t) : (C.fill s).AcceptedBy (C.fill t) :=
  acceptedBy_iff_within.2 (within_fill C h)

/-- In any context a shape may give way to one that accepts as much, a required field become
optional, a field be dropped or a member be added to a union: every value that was accepted is
still accepted. -/
theorem widening_keeps_accepted (C : Context) :
    (∀ s t : Shape, s.AcceptedBy t → (C.fill s).AcceptedBy (C.fill t)) ∧
    (∀ before key value after,
      (C.fill (record (before ++ ⟨key, value, false⟩ :: after))).AcceptedBy
        (C.fill (record (before ++ ⟨key, value, true⟩ :: after)))) ∧
    (∀ before f after,
      (C.fill (record (before ++ f :: after))).AcceptedBy
        (C.fill (record (before ++ after)))) ∧
    ∀ before t after,
      (C.fill (union (before ++ after))).AcceptedBy
        (C.fill (union (before ++ t :: after))) := by
  refine ⟨fun s t h => ?_, fun before key value after => ?_, fun before f after => ?_,
    fun before t after => ?_⟩
  · exact acceptedBy_fill C (acceptedBy_iff_within.1 h)
  · apply acceptedBy_fill C
    exact within_record_replace ⟨rfl, fun _ => rfl, Within.refl value⟩
  · exact acceptedBy_fill C (within_record_drop f)
  · exact acceptedBy_fill C (within_union_add t)

end Conformance.Shape
