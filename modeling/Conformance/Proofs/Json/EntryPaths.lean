import Conformance.Proofs.Json.AddressTexts
import Conformance.Proofs.Shape.WireDocuments

/-!
# Faults of entries below a base

An object of numbers that stands at a base is refused for its first entry whose
value is not a number of 32 bits. The path of the fault is that of the base with
the key behind it. Base and key are joined as texts, and the join takes a key
that is a dot for the root of the object, and one that begins with a bracket for
an index of a list: no dot stands before these. The main statement says which
path is reported, that no two keys have the same path, and which keys have a
path that could be that of the object itself or of an item of a list there.
-/
namespace Conformance

namespace Address

variable {base key : String}

/-- What the key of an entry adds to the path of an object that is not the root. -/
def keySuffix (key : String) : String :=
  if key = root then "" else if key.toList.head? = some '[' then key else "." ++ key

theorem under_key (hb : base ≠ root) (key : String) :
    under base [.key key] = base ++ keySuffix key := by
  have ht : text [.key key] = key := by simp [text, stepText, tailText]
  rw [under, ht, keySuffix, if_neg hb]
  split_ifs
  · rw [String.append_empty]
  · rfl
  · rw [String.append_assoc]

theorem keySuffix_root : keySuffix root = "" := if_pos rfl

theorem keySuffix_of_bracket (h : key.toList.head? = some '[') : keySuffix key = key := by
  have hr : key ≠ root := text_ne_root_of_head? (by simp [h])
  rw [keySuffix, if_neg hr, if_pos h]

theorem keySuffix_of_plain (hr : key ≠ root) (h : key.toList.head? ≠ some '[') :
    keySuffix key = "." ++ key := by
  rw [keySuffix, if_neg hr, if_neg h]

theorem keySuffix_eq_dot_append_iff :
    keySuffix key = "." ++ key ↔ key ≠ root ∧ key.toList.head? ≠ some '[' := by
  constructor
  · intro h
    constructor
    · rintro rfl
      rw [keySuffix_root] at h
      exact absurd h (by decide)
    · intro hbracket
      rw [keySuffix_of_bracket hbracket] at h
      exact absurd (String.append_eq_right_iff.1 h.symm) (by decide)
  · intro h
    exact keySuffix_of_plain h.1 h.2

def keyOfSuffix (suffix : String) : String :=
  if suffix = "" then root
  else if suffix.toList.head? = some '[' then suffix
  else String.ofList suffix.toList.tail

theorem keyOfSuffix_keySuffix (key : String) : keyOfSuffix (keySuffix key) = key := by
  by_cases hr : key = root
  · rw [hr, keySuffix_root, keyOfSuffix, if_pos rfl]
  · by_cases hbracket : key.toList.head? = some '['
    · have hn : key ≠ "" := by
        rintro rfl
        simp at hbracket
      rw [keySuffix_of_bracket hbracket, keyOfSuffix, if_neg hn, if_pos hbracket]
    · have hn : "." ++ key ≠ "" := by simp
      have hdot : ("." ++ key).toList.head? ≠ some '[' := by simp
      rw [keySuffix_of_plain hr hbracket, keyOfSuffix, if_neg hn, if_neg hdot]
      simp

theorem keySuffix_injective : Function.Injective keySuffix :=
  Function.LeftInverse.injective keyOfSuffix_keySuffix

theorem keySuffix_index (i : Nat) : keySuffix (stepText (.index i)) = stepText (.index i) :=
  keySuffix_of_bracket (by simp [stepText])

end Address

def Json.IsU32 (j : Json) : Prop :=
  ∃ n lower upper, j = .number (.integer n lower upper) ∧ 0 ≤ n ∧ n < 0x100000000

namespace Codec

variable {base : String} {before : Entries Json} {j : Json}

theorem tree_u32_eq_ok_iff : (∃ n, u32.tree j = .ok n) ↔ j.IsU32 := by
  simp only [u32, scalar, Shape.mapError_eq_ok]
  constructor
  · intro h
    obtain ⟨n, hn⟩ := h
    unfold u32OfJson at hn
    split at hn
    · split_ifs at hn with hrange
      exact ⟨_, _, _, rfl, hrange⟩
    · cases hn
  · intro h
    obtain ⟨n, lower, upper, rfl, hrange⟩ := h
    exact ⟨_, if_pos hrange⟩

theorem treeOfMembers_of_error {α : Type} {value : Json → Except Rejection α} {r : Rejection}
    (met : ∀ e ∈ before, ∃ a, value e.2 = .ok a) (hr : value j = .error r) (key : String)
    (after : Entries Json) :
    treeOfMembers value (before ++ (key, j) :: after) = .error (r.below (.key key)) := by
  induction before with
  | nil => rw [List.nil_append, treeOfMembers, hr]
  | cons e before ih =>
    rw [List.forall_mem_cons] at met
    obtain ⟨a, ha⟩ := met.1
    rw [List.cons_append, treeOfMembers, ha, ih met.2]
    rfl

theorem readAt_map_u32 (hb : base ≠ Address.root) (met : ∀ e ∈ before, e.2.IsU32)
    (hj : ¬ j.IsU32) (key : String) (after : Entries Json) :
    ∃ c, u32OfJson j = .error c ∧
      (map u32).readAt base (.object (before ++ (key, j) :: after)) =
        .error (.malformedType (base ++ Address.keySuffix key) c.message) := by
  cases hc : u32OfJson j with
  | ok n => exact absurd (tree_u32_eq_ok_iff.1 ⟨n, Shape.mapError_eq_ok.2 hc⟩) hj
  | error c =>
    have hr : u32.tree j = .error ⟨[], c⟩ := by simp [u32, scalar, hc, Shape.mapError_error]
    have hm : (map u32).tree (.object (before ++ (key, j) :: after)) =
        .error ⟨[.key key], c⟩ :=
      treeOfMembers_of_error (fun e he => tree_u32_eq_ok_iff.2 (met e he)) hr key after
    refine ⟨c, rfl, ?_⟩
    rw [readAt, hm, Shape.mapError_error, Rejection.asFault, Address.under_key hb]

/-- The fault of the first entry that is not a number of 32 bits is reported with the path of the
object, a dot and the key, unless the key is a dot or begins with a bracket. Faults at different
keys never share a path. The path is that of the object itself only for the key that is a dot, and
that of an item of a list only for the key that is spelled as the index. -/
theorem entry_fault_below_base (base : String) (before after : Entries Json) (key : String)
    (j : Json) (hb : base ≠ Address.root) (met : ∀ e ∈ before, e.2.IsU32) (hj : ¬ j.IsU32) :
    ∃ path message,
      (map u32).readAt base (.object (before ++ (key, j) :: after)) =
        .error (.malformedType path message) ∧
      (path = base ++ "." ++ key ↔ key ≠ "." ∧ key.toList.head? ≠ some '[') ∧
      (path = base ↔ key = ".") ∧
      (∀ i : Nat, path = base ++ "[" ++ toString i ++ "]" ↔ key = "[" ++ toString i ++ "]") ∧
      ∀ before' after' key' j' message', (∀ e ∈ before', e.2.IsU32) → ¬ j'.IsU32 →
        (map u32).readAt base (.object (before' ++ (key', j') :: after')) =
          .error (.malformedType path message') → key' = key := by
  obtain ⟨c, -, hread⟩ := readAt_map_u32 hb met hj key after
  refine ⟨_, _, hread, ?_, ?_, ?_, ?_⟩
  · rw [String.append_assoc, String.append_right_inj]
    exact Address.keySuffix_eq_dot_append_iff
  · rw [String.append_eq_left_iff]
    exact Address.keySuffix_injective.eq_iff' Address.keySuffix_root
  · intro i
    have hi : base ++ "[" ++ toString i ++ "]" = base ++ Address.stepText (.index i) := by
      simp only [Address.stepText, String.append_assoc]
    rw [hi, String.append_right_inj]
    exact Address.keySuffix_injective.eq_iff' (Address.keySuffix_index i)
  · intro before' after' key' j' message' met' hj' hread'
    obtain ⟨c', -, h⟩ := readAt_map_u32 hb met' hj' key' after'
    have hpath := hread'.symm.trans h
    simp only [Except.error.injEq, Fault.malformedType.injEq, String.append_right_inj] at hpath
    exact Address.keySuffix_injective hpath.1.symm

theorem entry_fault_below_base_counts :
    "totals" ≠ Address.root ∧
      ∃ message, (map u32).readAt "totals" (.object [
          ("all", .number (.integer 12 (by decide) (by decide))), ("a.b", .string "x")]) =
        .error (.malformedType "totals.a.b" message) := by
  have hb : "totals" ≠ Address.root := by decide
  have met : ∀ e ∈ [("all", Json.number (.integer 12 (by decide) (by decide)))], e.2.IsU32 := by
    simp [Json.IsU32]
  have hj : ¬ (Json.string "x").IsU32 := by simp [Json.IsU32]
  obtain ⟨path, message, hread, hdot, -⟩ :=
    entry_fault_below_base "totals" _ [] "a.b" (.string "x") hb met hj
  obtain rfl := hdot.2 (by decide)
  exact ⟨hb, message, hread⟩

/-- An entry under a key that begins with a bracket is reported where an item of a list would be,
and one under a dot where the object itself would be. -/
theorem bracketed_key_taken_for_index :
    (map u32).readAt "a" (.object [("[0]", .string "x")]) =
        .error (.malformedType "a[0]" "invalid type: string \"x\", expected u32") ∧
      (list u32).readAt "a" (.array [.string "x"]) =
        .error (.malformedType "a[0]" "invalid type: string \"x\", expected u32") ∧
      (map u32).readAt "a" (.object [(".", .string "x")]) =
        .error (.malformedType "a" "invalid type: string \"x\", expected u32") ∧
      u32.readAt "a" (.string "x") =
        .error (.malformedType "a" "invalid type: string \"x\", expected u32") ∧
      "a[0]" ≠ "a" ++ "." ++ "[0]" ∧ "a" ≠ "a" ++ "." ++ "." :=
  ⟨rfl, rfl, rfl, rfl, by decide, by decide⟩

end Codec
end Conformance
