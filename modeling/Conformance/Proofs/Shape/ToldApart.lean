import Mathlib.Data.List.Forall2
import Mathlib.Data.List.Infix

/-!
# Telling texts apart

Texts of parts stand in a row without marks of where each ends. They are read
from left to right, and each is told apart from others in front of the rest that
follows it: a word as the longest run of its characters, a list by its
separators, brackets by counting them. What may follow depends on how much of a
shape has been read; there are three kinds of such rests.
-/
namespace Conformance.Shape

section
variable {α : Type} {f : α → List Char} {Ends : List Char → Prop} {R : α → α → Prop}

/-- In front of rests that end them, the texts of `x` and `y` are the same only if `R x y`, and
then they leave the same rest. -/
def ToldApart (f : α → List Char) (Ends : List Char → Prop) (R : α → α → Prop) (x y : α) :
    Prop :=
  ∀ r s, Ends r → Ends s → f x ++ r = f y ++ s → R x y ∧ r = s

theorem run_told_apart {p : Char → Bool} {xs ys r s : List Char} (hx : ∀ c ∈ xs, p c = true)
    (hy : ∀ c ∈ ys, p c = true) (hr : ∀ c ∈ r.head?, p c = false)
    (hs : ∀ c ∈ s.head?, p c = false) (h : xs ++ r = ys ++ s) : xs = ys ∧ r = s := by
  induction xs generalizing ys with
  | nil =>
    cases ys with
    | nil => exact ⟨rfl, h⟩
    | cons y ys =>
      subst h
      have hn := hr y rfl
      rw [hy y List.mem_cons_self] at hn
      cases hn
  | cons x xs ih =>
    cases ys with
    | nil =>
      subst h
      have hn := hs x rfl
      rw [hx x List.mem_cons_self] at hn
      cases hn
    | cons y ys =>
      rw [List.forall_mem_cons] at hx hy
      obtain ⟨rfl, ht⟩ := List.cons.inj h
      obtain ⟨rfl, hrs⟩ := ih hx.2 hy.2 ht
      exact ⟨rfl, hrs⟩

variable {sep : List Char}

theorem ends_joined (hsep : ∀ r, Ends (sep ++ r)) (xs : List α) {r : List Char} (hr : Ends r) :
    Ends (xs.flatMap (fun x => sep ++ f x) ++ r) := by
  cases xs with
  | nil => exact hr
  | cons x xs =>
    rw [List.flatMap_cons, List.append_assoc, List.append_assoc]
    exact hsep _

theorem joined_told_apart (hsep : ∀ r, Ends (sep ++ r)) {xs ys : List α}
    (h : ∀ x ∈ xs, ∀ y ∈ ys, ToldApart f Ends R x y) {r s : List Char} (hr : Ends r)
    (hs : Ends s) (hr' : ¬ sep <+: r) (hs' : ¬ sep <+: s)
    (he : xs.flatMap (fun x => sep ++ f x) ++ r = ys.flatMap (fun y => sep ++ f y) ++ s) :
    List.Forall₂ R xs ys ∧ r = s := by
  induction xs generalizing ys with
  | nil =>
    cases ys with
    | nil => exact ⟨.nil, he⟩
    | cons y ys =>
      have hp : sep <+: r := ⟨f y ++ (ys.flatMap (fun y => sep ++ f y) ++ s), by simpa using he.symm⟩
      exact absurd hp hr'
  | cons x xs ih =>
    cases ys with
    | nil =>
      have hp : sep <+: s := ⟨f x ++ (xs.flatMap (fun x => sep ++ f x) ++ r), by simpa using he⟩
      exact absurd hp hs'
    | cons y ys =>
      simp only [List.flatMap_cons, List.append_assoc, List.append_cancel_left_eq] at he
      obtain ⟨hxy, hrest⟩ := h x List.mem_cons_self y List.mem_cons_self _ _
        (ends_joined hsep xs hr) (ends_joined hsep ys hs) he
      have h' : ∀ x ∈ xs, ∀ y ∈ ys, ToldApart f Ends R x y := fun x hx y hy =>
        h x (List.mem_cons_of_mem _ hx) y (List.mem_cons_of_mem _ hy)
      obtain ⟨hxs, hrs⟩ := ih h' hrest
      exact ⟨.cons hxy hxs, hrs⟩

theorem intercalate_map_cons (sep : List Char) (f : α → List Char) (x : α) (xs : List α) :
    sep.intercalate ((x :: xs).map f) = f x ++ xs.flatMap fun y => sep ++ f y := by
  induction xs generalizing x with
  | nil => simp [List.intercalate_singleton]
  | cons y ys ih =>
    rw [List.map_cons, List.intercalate_cons_of_ne_nil (by simp), ih, List.flatMap_cons]
    simp only [List.append_assoc]

theorem intercalate_told_apart (hsep : ∀ r, Ends (sep ++ r)) {x y : α} {xs ys : List α}
    (h : ∀ a ∈ x :: xs, ∀ b ∈ y :: ys, ToldApart f Ends R a b) {r s : List Char} (hr : Ends r)
    (hs : Ends s) (hr' : ¬ sep <+: r) (hs' : ¬ sep <+: s)
    (he : sep.intercalate ((x :: xs).map f) ++ r = sep.intercalate ((y :: ys).map f) ++ s) :
    List.Forall₂ R (x :: xs) (y :: ys) ∧ r = s := by
  apply joined_told_apart hsep h hr hs hr' hs'
  simp only [intercalate_map_cons, List.append_assoc] at he
  simp only [List.flatMap_cons, List.append_assoc, he]

end

def EndsAtom (r : List Char) : Prop := ∀ c ∈ r.head?, c ∈ [')', ']', ',', ';', ' ', '[']

def EndsAlternative (r : List Char) : Prop := ∀ c ∈ r.head?, c ∈ [')', ']', ',', ';', ' ']

def EndsShape (r : List Char) : Prop := EndsAlternative r ∧ ¬ [' ', '|', ' '] <+: r

theorem endsShape_nil : EndsShape [] := by
  refine ⟨by simp [EndsAlternative], by simp⟩

theorem endsShape_cons {c : Char} (h : c ∈ [')', ']', ',', ';']) (r : List Char) :
    EndsShape (c :: r) := by
  simp only [List.mem_cons, List.not_mem_nil, or_false] at h
  rcases h with rfl | rfl | rfl | rfl <;> simp [EndsShape, EndsAlternative]

theorem endsShape_brace (r : List Char) : EndsShape (' ' :: '\x7d' :: r) := by
  simp [EndsShape, EndsAlternative]

theorem EndsAlternative.atom {r : List Char} (h : EndsAlternative r) : EndsAtom r := by
  intro c hc
  have := h c hc
  simp only [List.mem_cons] at this ⊢
  tauto

def brackets (n : Nat) : List Char := (List.replicate n ['[', ']']).flatten

theorem brackets_succ (n : Nat) : brackets (n + 1) = '[' :: ']' :: brackets n := rfl

theorem brackets_append (n : Nat) : brackets n ++ ['[', ']'] = brackets (n + 1) := by
  rw [brackets, brackets, List.replicate_succ', List.flatten_append]
  rfl

theorem endsAtom_brackets (n : Nat) {r : List Char} (h : EndsAlternative r) :
    EndsAtom (brackets n ++ r) := by
  cases n with
  | zero => exact h.atom
  | succ n => simp [brackets_succ, EndsAtom]

theorem brackets_told_apart {m n : Nat} {r s : List Char} (hr : EndsAlternative r)
    (hs : EndsAlternative s) (h : brackets m ++ r = brackets n ++ s) : m = n ∧ r = s := by
  induction m generalizing n with
  | zero =>
    cases n with
    | zero => exact ⟨rfl, h⟩
    | succ n =>
      have hn := hr '[' (by rw [show r = brackets (n + 1) ++ s from h]; rfl)
      simp at hn
  | succ m ih =>
    cases n with
    | zero =>
      have hn := hs '[' (by rw [show s = brackets (m + 1) ++ r from h.symm]; rfl)
      simp at hn
    | succ n =>
      rw [brackets_succ, brackets_succ] at h
      obtain ⟨rfl, hrs⟩ := ih (List.cons.inj (List.cons.inj h).2).2
      exact ⟨rfl, hrs⟩

end Conformance.Shape
