import Mathlib.Data.List.Forall2

/-!
# Lists related item by item

Facts about `List.Forall₂` in which the relation, or what follows from it, is
known for members of one of the lists only. That is what an induction over
shapes, values or documents supplies.
-/
namespace Conformance

section
variable {α β : Type} {R S : α → β → Prop} {as : List α} {bs : List β}

theorem forall₂_imp_mem (h : ∀ a ∈ as, ∀ b, R a b → S a b) (each : List.Forall₂ R as bs) :
    List.Forall₂ S as bs := by
  apply ((List.forall₂_and_left as bs).2 ⟨h, each⟩).imp
  intro a b hab
  exact hab.1 b hab.2

theorem forall₂_congr_mem (h : ∀ b ∈ bs, ∀ a, R a b ↔ S a b) :
    List.Forall₂ R as bs ↔ List.Forall₂ S as bs := by
  induction bs generalizing as with
  | nil => simp
  | cons b bs ih =>
    have hb := h b List.mem_cons_self
    have hbs as : List.Forall₂ R as bs ↔ List.Forall₂ S as bs :=
      ih fun b hm => h b (List.mem_cons_of_mem _ hm)
    simp only [List.forall₂_cons_right_iff, hb, hbs]

theorem forall₂_trans_mem {R : α → α → Prop} {bs cs : List α}
    (h : ∀ a ∈ as, ∀ b c, R a b → R b c → R a c) (hab : List.Forall₂ R as bs)
    (hbc : List.Forall₂ R bs cs) : List.Forall₂ R as cs := by
  induction hab generalizing cs with
  | nil => exact hbc
  | cons hab _ ih =>
    obtain ⟨ha, has⟩ := List.forall_mem_cons.1 h
    obtain ⟨c, cs, hc, hcs, rfl⟩ := List.forall₂_cons_left_iff.1 hbc
    exact .cons (ha _ c hab hc) (ih has hcs)

theorem exists_mem_of_forall₂ (h : List.Forall₂ R as bs) : ∀ a ∈ as, ∃ b ∈ bs, R a b := by
  induction h with
  | nil => simp
  | cons hab _ ih =>
    rw [List.forall_mem_cons]
    refine ⟨⟨_, List.mem_cons_self, hab⟩, fun a ha => ?_⟩
    obtain ⟨b, hb, h⟩ := ih a ha
    exact ⟨b, List.mem_cons_of_mem _ hb, h⟩

theorem exists_of_forall₂ (h : List.Forall₂ R as bs) : ∀ a ∈ as, ∃ b, R a b :=
  fun a ha => (exists_mem_of_forall₂ h a ha).imp fun _ hb => hb.2

theorem exists_forall₂_iff : (∃ bs, List.Forall₂ R as bs) ↔ ∀ a ∈ as, ∃ b, R a b := by
  constructor
  · intro h
    obtain ⟨bs, h⟩ := h
    exact exists_of_forall₂ h
  · intro h
    induction as with
    | nil => exact ⟨[], .nil⟩
    | cons a as ih =>
      obtain ⟨b, hb⟩ := h a List.mem_cons_self
      obtain ⟨bs, hbs⟩ := ih fun a ha => h a (List.mem_cons_of_mem _ ha)
      exact ⟨b :: bs, .cons hb hbs⟩

theorem map_eq_map_of_forall₂ {γ : Type} {f : α → γ} {g : β → γ}
    (h : ∀ b ∈ bs, ∀ a, R a b → f a = g b) (each : List.Forall₂ R as bs) :
    as.map f = bs.map g := by
  induction each with
  | nil => rfl
  | cons hab _ ih =>
    rw [List.map_cons, List.map_cons, h _ List.mem_cons_self _ hab,
      ih fun b hb => h b (List.mem_cons_of_mem _ hb)]

end
end Conformance
