import Conformance.Files
import Mathlib.Order.Defs.LinearOrder
import Mathlib.Data.String.Basic
import Mathlib.Data.List.Lex

/-!
# Listing a directory

What lies below a location is listed in the order of locations, so the names of
what lies directly in a directory come in ascending order, and each of them comes
once if no location does twice.
-/
namespace Conformance.Files

variable {fs : Files} {l : Location} {path : String} {entries : List (String × Node)}

def HasEntry (fs : Files) (path name : String) (node : Node) : Prop :=
  ∃ l, fs.locate path = .ok l ∧ (l ++ [name], node) ∈ fs.nodes

def Distinct (fs : Files) : Prop := fs.nodes.Pairwise fun a b => a.1 ≠ b.1

theorem comesBefore_iff {a b : Location} : comesBefore a b = true ↔ a ≤ b := by
  simp [comesBefore]

theorem pairwise_below (fs : Files) (l : Location) :
    (fs.below l).Pairwise fun a b => a.1 ≤ b.1 := by
  have htrans (a b c : Location × Node) (hab : comesBefore a.1 b.1 = true)
      (hbc : comesBefore b.1 c.1 = true) : comesBefore a.1 c.1 = true :=
    comesBefore_iff.2 ((comesBefore_iff.1 hab).trans (comesBefore_iff.1 hbc))
  have htotal (a b : Location × Node) :
      (comesBefore a.1 b.1 || comesBefore b.1 a.1) = true := by
    simp only [Bool.or_eq_true, comesBefore_iff]
    exact le_total a.1 b.1
  exact (List.pairwise_mergeSort htrans htotal _).imp comesBefore_iff.1

theorem distinct_below (h : fs.Distinct) (l : Location) :
    (fs.below l).Pairwise fun a b => a.1 ≠ b.1 := by
  refine (List.mergeSort_perm _ _).symm.pairwise ?_ fun hab => hab.symm
  apply List.Pairwise.filterMap _ _ h
  intro a b hab x hx y hy
  split_ifs at hx with ha
  split_ifs at hy with hb
  cases hx
  cases hy
  simp only [Bool.and_eq_true, List.isPrefixOf_iff_prefix] at ha hb
  obtain ⟨rest, hrest⟩ := ha.1
  obtain ⟨rest', hrest'⟩ := hb.1
  dsimp only
  rw [← hrest, ← hrest'] at hab ⊢
  rw [List.drop_left, List.drop_left]
  exact fun he => hab (congrArg (l ++ ·) he)

theorem mem_below_singleton {name : String} {node : Node} :
    ([name], node) ∈ fs.below l ↔ (l ++ [name], node) ∈ fs.nodes := by
  rw [below, List.mem_mergeSort, List.mem_filterMap]
  constructor
  · rintro ⟨⟨m, n⟩, hm, h⟩
    split_ifs at h with hl
    simp only [Bool.and_eq_true, List.isPrefixOf_iff_prefix] at hl
    obtain ⟨rest, rfl⟩ := hl.1
    simp only [List.drop_left, Option.some.injEq, Prod.mk.injEq] at h
    obtain ⟨rfl, rfl⟩ := h
    exact hm
  · intro h
    refine ⟨_, h, ?_⟩
    simp

theorem le_of_singleton_le {a b : String} (h : [a] ≤ [b]) : a ≤ b := by
  refine le_of_not_gt fun hlt => ?_
  exact absurd (List.Lex.rel hlt : [b] < [a]) (not_lt.2 h)

theorem pairwise_filterMap {R : Location → Location → Prop} {S : String → String → Prop}
    (hRS : ∀ a b, R [a] [b] → S a b) {nodes : List (Location × Node)}
    (h : nodes.Pairwise fun a b => R a.1 b.1) :
    (nodes.filterMap fun e =>
      match e.1 with
      | [name] => some (name, e.2)
      | _ => none).Pairwise fun a b => S a.1 b.1 := by
  apply List.Pairwise.filterMap _ _ h
  intro a b hab x hx y hy
  split at hx
  · rename_i ha
    cases hx
    split at hy
    · rename_i hb
      cases hy
      rw [ha, hb] at hab
      exact hRS _ _ hab
    · cases hy
  · cases hx

theorem list_eq_ok (h : fs.list path = .ok entries) :
    (entries.Pairwise fun a b => a.1 ≤ b.1) ∧
      (fs.Distinct → entries.Pairwise fun a b => a.1 ≠ b.1) ∧
      ∀ name node, (name, node) ∈ entries ↔ fs.HasEntry path name node := by
  unfold list at h
  split at h
  · cases h
  · rename_i l hl
    split at h
    · cases h
    · cases h
    · split at h
      · cases h
      · cases h
        refine ⟨?_, fun hd => ?_, fun name node => ?_⟩
        · exact pairwise_filterMap (fun _ _ => le_of_singleton_le) (pairwise_below fs l)
        · refine pairwise_filterMap (fun a b hab he => ?_) (distinct_below hd l)
          exact hab (congrArg (fun name => [name]) he)
        · have hmem : fs.HasEntry path name node ↔ (l ++ [name], node) ∈ fs.nodes := by
            simp [HasEntry, hl]
          rw [hmem, ← mem_below_singleton, List.mem_filterMap]
          constructor
          · rintro ⟨⟨m, n⟩, hm, hx⟩
            split at hx
            · rename_i ha
              cases hx
              rw [← ha]
              exact hm
            · cases hx
          · intro hm
            exact ⟨_, hm, rfl⟩

end Conformance.Files
