import Conformance.Entries
import Conformance.Proofs.RelatedLists
import Mathlib.Data.List.Perm.Basic
import Mathlib.Data.List.Perm.Subperm

/-!
# Entries matched by key

`Entries.Matched` says of two lists of entries that they have the same keys, in
any order, and related values under each key. This can be told from one side: if
no key comes twice, it is enough that both are of one length and that each key of
the first is found in the second, for then none of the second is left over.
-/
namespace Conformance.Entries

variable {α β : Type} {R : α → β → Prop} {as : Entries α} {bs : Entries β}

theorem get?_of_mem {e : String × α} (hd : as.Distinct) (h : e ∈ as) : as.get? e.1 = some e.2 := by
  induction as with
  | nil => cases h
  | cons e' as ih =>
    obtain ⟨hn, hd⟩ := List.nodup_cons.1 hd
    rw [get?]
    rcases List.mem_cons.1 h with rfl | h
    · rw [if_pos rfl]
    · have hk : e'.1 ≠ e.1 := fun hk => hn (hk ▸ List.mem_map_of_mem h)
      rw [if_neg hk, ih hd h]

theorem get?_append (as bs : Entries α) (key : String) :
    get? (as ++ bs) key = (as.get? key).or (bs.get? key) := by
  induction as with
  | nil => rfl
  | cons e as ih =>
    rw [List.cons_append, get?, get?, ih]
    split <;> rfl

theorem get?_of_perm {bs : Entries α} (hd : as.Distinct) (h : as.Perm bs) (key : String) :
    as.get? key = bs.get? key := by
  have hb : bs.Distinct := (h.map Prod.fst).nodup_iff.1 hd
  cases ha : as.get? key with
  | none =>
    rw [get?_eq_none_iff, keys, (h.map Prod.fst).mem_iff, ← keys, ← get?_eq_none_iff] at ha
    exact ha.symm
  | some a => exact (get?_of_mem hb (h.mem_iff.1 (mem_of_get? ha))).symm

def Matched (R : α → β → Prop) (as : Entries α) (bs : Entries β) : Prop :=
  ∃ ps : Entries α, as.Perm ps ∧ List.Forall₂ (fun m n => m.1 = n.1 ∧ R m.2 n.2) ps bs

theorem Matched.keys_perm (h : Matched R as bs) : as.keys.Perm bs.keys := by
  obtain ⟨ps, hp, each⟩ := h
  have hk : ps.keys = bs.keys := by
    rw [keys, keys, ← List.forall₂_eq_eq_eq, List.forall₂_map_left_iff, List.forall₂_map_right_iff]
    exact each.imp fun _ _ h => h.1
  rw [← hk]
  exact hp.map Prod.fst

theorem Matched.mono {S : α → β → Prop} (h : Matched R as bs)
    (hS : ∀ m ∈ as, ∀ b, R m.2 b → S m.2 b) : Matched S as bs := by
  obtain ⟨ps, hp, each⟩ := h
  refine ⟨ps, hp, ?_⟩
  apply forall₂_imp_mem _ each
  rintro m hm n ⟨hk, hR⟩
  exact ⟨hk, hS m (hp.mem_iff.2 hm) n.2 hR⟩

theorem Matched.symm {S : β → α → Prop} (h : Matched R as bs)
    (hS : ∀ m ∈ as, ∀ b, R m.2 b → S b m.2) : Matched S bs as := by
  obtain ⟨ps, hp, each⟩ := h
  have hflip : List.Forall₂ (fun n m => n.1 = m.1 ∧ S n.2 m.2) bs ps := by
    apply List.Forall₂.flip
    apply forall₂_imp_mem _ each
    rintro m hm n ⟨hk, hR⟩
    exact ⟨hk.symm, hS m (hp.mem_iff.2 hm) n.2 hR⟩
  -- The pairs may be put in the order of either side.
  have hcomp : Relation.Comp (List.Forall₂ fun n m => n.1 = m.1 ∧ S n.2 m.2) List.Perm bs as :=
    ⟨ps, hflip, hp.symm⟩
  rwa [List.forall₂_comp_perm_eq_perm_comp_forall₂] at hcomp

theorem Matched.exists_get? (hd : bs.Distinct) (h : Matched R as bs) {m : String × α}
    (hm : m ∈ as) : ∃ b, bs.get? m.1 = some b ∧ R m.2 b := by
  obtain ⟨ps, hp, each⟩ := h
  obtain ⟨i, hi, rfl⟩ := List.mem_iff_get.1 (hp.mem_iff.1 hm)
  obtain ⟨hk, hR⟩ := each.get i.2 (each.length_eq ▸ i.2)
  refine ⟨_, ?_, hR⟩
  rw [hk]
  exact get?_of_mem hd (List.get_mem _ _)

theorem keys_perm_of_get? (hd : as.Distinct) (hl : as.length = bs.length)
    (h : ∀ m ∈ as, ∃ b, bs.get? m.1 = some b) : as.keys.Perm bs.keys := by
  have hsub : as.keys ⊆ bs.keys := by
    intro key hk
    obtain ⟨m, hm, rfl⟩ := List.mem_map.1 hk
    obtain ⟨b, hb⟩ := h m hm
    exact List.mem_map_of_mem (mem_of_get? hb)
  have hlen : bs.keys.length ≤ as.keys.length := by simp [keys, hl]
  exact (hd.subperm hsub).perm_of_length_le hlen

theorem matched_iff_get? (hd : as.Distinct) :
    Matched R as bs ↔
      as.length = bs.length ∧ ∀ m ∈ as, ∃ b, bs.get? m.1 = some b ∧ R m.2 b := by
  constructor
  · intro h
    have hkeys := h.keys_perm
    refine ⟨by simpa [keys] using hkeys.length_eq, fun m hm => h.exists_get? ?_ hm⟩
    exact hkeys.nodup_iff.1 hd
  · intro h
    obtain ⟨hl, h⟩ := h
    have hkeys := keys_perm_of_get? hd hl fun m hm => (h m hm).imp fun _ hb => hb.1
    have hcomp : Relation.Comp (List.Forall₂ fun m key => m.1 = key) List.Perm as bs.keys :=
      ⟨as.keys, List.forall₂_map_right_iff.2 (List.forall₂_same.2 fun _ _ => rfl), hkeys⟩
    rw [List.forall₂_comp_perm_eq_perm_comp_forall₂] at hcomp
    obtain ⟨ps, hp, each⟩ := hcomp
    rw [keys, List.forall₂_map_right_iff] at each
    refine ⟨ps, hp, List.forall₂_iff_get.2 ⟨each.length_eq, fun i hi hi' => ?_⟩⟩
    have hk := each.get hi hi'
    obtain ⟨b, hb, hR⟩ := h _ (hp.mem_iff.2 (List.get_mem ps ⟨i, hi⟩))
    rw [hk, get?_of_mem (hkeys.nodup_iff.1 hd) (List.get_mem _ _)] at hb
    cases hb
    exact ⟨hk, hR⟩

end Conformance.Entries
