import Conformance.Proofs.Check.Conforms
import Conformance.Proofs.RelatedLists

/-!
# Shapes that mean as much as others

One shape lies within another when every value that conforms to the first
conforms to the second. Arrays, tuples, records and unions keep this relation:
they lie within one another as soon as their parts do. Two shapes that lie
within each other are met by the same values.
-/
namespace Conformance.Shape

def Within (a b : Shape) : Prop := ∀ v : Value, v.Conforms a → v.Conforms b

structure FieldWithin (f g : Field Shape) : Prop where
  key : f.key = g.key
  optional : f.optional = true → g.optional = true
  value : f.value.Within g.value

theorem within_array {a b : Shape} (h : a.Within b) : (array a).Within (array b) := by
  intro v hv
  cases hv with
  | array each => exact .array fun v hv => h v (each v hv)

theorem within_tuple {as bs : List Shape} (h : List.Forall₂ Within as bs) :
    (tuple as).Within (tuple bs) := by
  intro v hv
  cases hv with
  | tuple length each =>
    refine .tuple (length.trans h.length_eq) ?_
    intro i v t hi ht
    obtain ⟨hlt, rfl⟩ := List.getElem?_eq_some_iff.1 ht
    have hlt' : i < as.length := h.length_eq ▸ hlt
    have hi' := each i v as[i] hi (List.getElem?_eq_getElem hlt')
    exact h.get hlt' hlt v hi'

theorem within_record {fs gs : List (Field Shape)}
    (h : ∀ g ∈ gs, ∃ f ∈ fs, FieldWithin f g) : (record fs).Within (record gs) := by
  intro v hv
  cases hv with
  | record absent present =>
    -- Each field that is to be met has one within it that is met.
    refine .record ?_ ?_
    · intro g hg ha
      obtain ⟨f, hf, hw⟩ := h g hg
      exact hw.optional (absent f hf (hw.key ▸ ha))
    · intro g hg v hv
      obtain ⟨f, hf, hw⟩ := h g hg
      exact hw.value v (present f hf v (hw.key ▸ hv))

theorem within_union {as bs : List Shape} (h : ∀ a ∈ as, ∃ b ∈ bs, a.Within b) :
    (union as).Within (union bs) := by
  intro v hv
  cases hv with
  | union mem hv =>
    obtain ⟨b, hb, hab⟩ := h _ mem
    exact .union hb (hab v hv)

def Equivalent (a b : Shape) : Prop := ∀ v : Value, v.Conforms a ↔ v.Conforms b

variable {a b c : Shape}

theorem Equivalent.refl (a : Shape) : a.Equivalent a := fun _ => Iff.rfl

theorem Equivalent.symm (h : a.Equivalent b) : b.Equivalent a := fun v => (h v).symm

theorem Equivalent.trans (hab : a.Equivalent b) (hbc : b.Equivalent c) : a.Equivalent c :=
  fun v => (hab v).trans (hbc v)

theorem Equivalent.accept_iff (h : a.Equivalent b) (v w : Value) :
    a.accept v = .ok w ↔ b.accept v = .ok w := by
  rw [accept_eq_ok_iff_check, accept_eq_ok_iff_check, check_eq_ok_iff, check_eq_ok_iff, h v]

theorem equivalent_iff_within : a.Equivalent b ↔ a.Within b ∧ b.Within a := by
  constructor
  · intro h
    exact ⟨fun v => (h v).1, fun v => (h v).2⟩
  · intro h v
    exact ⟨h.1 v, h.2 v⟩

theorem equivalent_array (h : a.Equivalent b) : (array a).Equivalent (array b) := by
  obtain ⟨hab, hba⟩ := equivalent_iff_within.1 h
  exact equivalent_iff_within.2 ⟨within_array hab, within_array hba⟩

theorem forall₂_within_of_equivalent {as bs : List Shape} (h : List.Forall₂ Equivalent as bs) :
    List.Forall₂ Within as bs ∧ List.Forall₂ Within bs as := by
  induction h with
  | nil => exact ⟨.nil, .nil⟩
  | cons hab _ ih =>
    obtain ⟨h1, h2⟩ := equivalent_iff_within.1 hab
    exact ⟨.cons h1 ih.1, .cons h2 ih.2⟩

theorem equivalent_tuple {as bs : List Shape} (h : List.Forall₂ Equivalent as bs) :
    (tuple as).Equivalent (tuple bs) := by
  obtain ⟨hab, hba⟩ := forall₂_within_of_equivalent h
  exact equivalent_iff_within.2 ⟨within_tuple hab, within_tuple hba⟩

theorem equivalent_union {as bs : List Shape} (h : List.Forall₂ Equivalent as bs) :
    (union as).Equivalent (union bs) := by
  obtain ⟨hab, hba⟩ := forall₂_within_of_equivalent h
  exact equivalent_iff_within.2
    ⟨within_union (exists_mem_of_forall₂ hab), within_union (exists_mem_of_forall₂ hba)⟩

structure FieldEquivalent (f g : Field Shape) : Prop where
  key : f.key = g.key
  optional : f.optional = g.optional
  value : f.value.Equivalent g.value

theorem FieldEquivalent.symm {f g : Field Shape} (h : FieldEquivalent f g) : FieldEquivalent g f :=
  ⟨h.key.symm, h.optional.symm, h.value.symm⟩

theorem FieldEquivalent.within {f g : Field Shape} (h : FieldEquivalent f g) : FieldWithin f g :=
  ⟨h.key, fun ho => h.optional ▸ ho, (equivalent_iff_within.1 h.value).1⟩

theorem within_record_of_forall₂ {fs gs : List (Field Shape)}
    (h : List.Forall₂ FieldEquivalent fs gs) : (record gs).Within (record fs) := by
  apply within_record
  intro f hf
  obtain ⟨g, hg, hfg⟩ := exists_mem_of_forall₂ h f hf
  exact ⟨g, hg, hfg.symm.within⟩

theorem equivalent_record {fs gs : List (Field Shape)}
    (h : List.Forall₂ FieldEquivalent fs gs) : (record fs).Equivalent (record gs) := by
  have hflip : List.Forall₂ FieldEquivalent gs fs :=
    List.Forall₂.flip (h.imp fun _ _ => FieldEquivalent.symm)
  exact equivalent_iff_within.2
    ⟨within_record_of_forall₂ hflip, within_record_of_forall₂ h⟩

end Conformance.Shape
