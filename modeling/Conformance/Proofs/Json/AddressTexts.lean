import Conformance.Json.Address
import Mathlib.Data.List.Basic

/-!
# Addresses below a base, as texts

An address below a base is joined to it as a text, and the join looks at that
text only: whether it is one dot, and whether it begins with a bracket. An
address is `Legible` if neither is the case because of how a key is spelled.
Then the text of the whole is that of the base with each step behind it, as if
the steps had been joined one by one.
-/
namespace Conformance.Address

variable {a rest : Address} {base name : String}

/-- The text is the root's, or begins with a bracket, only if the address is the root or begins with
an index. -/
structure Legible (a : Address) : Prop where
  ne_root : a ≠ [] → a.text ≠ root
  bracket : a.text.toList.head? = some '[' → ∃ i rest, a = .index i :: rest

theorem tailText_key (name : String) (rest : Address) :
    tailText (.key name :: rest) = "." ++ name ++ tailText rest := rfl

theorem tailText_unknown (rest : Address) :
    tailText (.unknown :: rest) = "." ++ "?" ++ tailText rest := rfl

theorem text_ne_root_of_head? {s : String} (h : s.toList.head? ≠ some '.') : s ≠ root := by
  rintro rfl
  exact h rfl

theorem legible_of_head? (hr : a.text.toList.head? ≠ some '.')
    (hb : a.text.toList.head? ≠ some '[') : a.Legible :=
  ⟨fun _ => text_ne_root_of_head? hr, fun h => absurd h hb⟩

theorem head?_text_index (i : Nat) (rest : Address) :
    (text (.index i :: rest)).toList.head? = some '[' := by
  simp [text, stepText]

theorem legible_nil : Legible [] := ⟨fun h => absurd rfl h, fun h => absurd h (by decide)⟩

theorem legible_index (i : Nat) (rest : Address) : Legible (.index i :: rest) :=
  ⟨fun _ => text_ne_root_of_head? (by simp [head?_text_index]), fun _ => ⟨i, rest, rfl⟩⟩

def PlainKey (name : String) : Prop :=
  name ≠ "" ∧ name.toList.head? ≠ some '.' ∧ name.toList.head? ≠ some '['

instance (name : String) : Decidable (PlainKey name) := inferInstanceAs (Decidable (_ ∧ _))

theorem head?_text_key (h : name ≠ "") (rest : Address) :
    (text (.key name :: rest)).toList.head? = name.toList.head? := by
  have hn : name.toList ≠ [] := by simpa using h
  rw [text, stepText, String.toList_append, List.head?_append_of_ne_nil _ hn]

theorem legible_key (h : PlainKey name) (rest : Address) : Legible (.key name :: rest) := by
  obtain ⟨hn, hdot, hbracket⟩ := h
  apply legible_of_head?
  · rwa [head?_text_key hn]
  · rwa [head?_text_key hn]

theorem under_nil (base : String) : under base [] = base := rfl

theorem under_index (hb : base ≠ root) (i : Nat) (rest : Address) :
    under base (.index i :: rest) = base ++ text (.index i :: rest) := by
  have hr := (legible_index i rest).ne_root (List.cons_ne_nil _ _)
  rw [under]
  rw [if_neg hr, if_neg hb, if_pos (head?_text_index i rest)]

theorem under_of_not_index (hb : base ≠ root) (ha : a.Legible) (hn : a ≠ [])
    (hi : ∀ i rest, a ≠ .index i :: rest) : under base a = base ++ "." ++ a.text := by
  have hbracket : a.text.toList.head? ≠ some '[' := by
    intro h
    obtain ⟨i, rest, h⟩ := ha.bracket h
    exact hi i rest h
  rw [under]
  rw [if_neg (ha.ne_root hn), if_neg hb, if_neg hbracket]

theorem under_eq_ite (hb : base ≠ root) (ha : a.Legible) (hi : ∀ i rest, a ≠ .index i :: rest) :
    under base a = if a.text = root then base else base ++ "." ++ a.text := by
  by_cases hn : a = []
  · subst hn
    exact (if_pos rfl).symm
  · rw [under_of_not_index hb ha hn hi, if_neg (ha.ne_root hn)]

theorem under_eq_append_tailText (hb : base ≠ root) (ha : a.Legible) :
    under base a = base ++ tailText a := by
  cases a with
  | nil => rw [under_nil, tailText, String.append_empty]
  | cons step rest =>
    cases step with
    | index i => rw [under_index hb, text, tailText]
    | key name =>
      rw [under_of_not_index hb ha (List.cons_ne_nil _ _) nofun, text, tailText_key, stepText]
      simp only [String.append_assoc]
    | unknown =>
      rw [under_of_not_index hb ha (List.cons_ne_nil _ _) nofun, text, tailText_unknown, stepText]
      simp only [String.append_assoc]

end Conformance.Address
