import Conformance.Proofs.Check.Conforms
import Mathlib.Data.List.Forall2

/-!
# Values that a check does not tell apart

A check looks at the kind of a value, compares it with literals, and goes on to
its items in order and to what lies under the keys that records declare. A
relation between values that hands all this on from a pair of values to the
pairs of their parts (`Value.Alike`) is kept by every check: related values meet
the same fault or none.
-/
namespace Conformance

/-- The relation holds between parts of related values again, as far as these are items or stand
under keys that are seen, and related values are the same for whoever looks at them only. -/
structure Value.Alike (seen : String → Prop) (R : Value → Value → Prop) : Prop where
  kind : ∀ {v w}, R v w → v.kind = w.kind
  literal : ∀ {v w}, R v w → ∀ lit : Literal, lit.matches v = lit.matches w
  items : ∀ {v w}, R v w → Option.Rel (List.Forall₂ R) v.items? w.items?
  members : ∀ {v w}, R v w →
    Option.Rel (fun as bs => ∀ key, seen key → Option.Rel R (as.get? key) (bs.get? key))
      v.members? w.members?

namespace Shape

def ownKeys : Shape → List String
  | record fields => fields.map Field.key
  | _ => []

def declaredKeys (t : Shape) : List String := t.nodes.flatMap ownKeys

theorem mem_declaredKeys {t : Shape} {key : String} :
    key ∈ t.declaredKeys ↔ ∃ fields, record fields ∈ t.nodes ∧ key ∈ fields.map Field.key := by
  rw [declaredKeys, List.mem_flatMap]
  constructor
  · intro h
    obtain ⟨s, hs, hk⟩ := h
    cases s with
    | record fields => exact ⟨fields, hs, hk⟩
    | _ => exact absurd hk List.not_mem_nil
  · intro h
    obtain ⟨fields, hs, hk⟩ := h
    exact ⟨record fields, hs, hk⟩

theorem declaredKeys_subset_of_mem_parts {p t : Shape} (h : p ∈ t.parts) :
    p.declaredKeys ⊆ t.declaredKeys := by
  intro key hk
  obtain ⟨fields, hf, hk⟩ := mem_declaredKeys.1 hk
  exact mem_declaredKeys.2 ⟨fields, mem_nodes.2 (.inr ⟨p, h, hf⟩), hk⟩

theorem key_mem_declaredKeys {fields : List (Field Shape)} {f : Field Shape} (h : f ∈ fields) :
    f.key ∈ (record fields).declaredKeys :=
  mem_declaredKeys.2 ⟨fields, mem_nodes_self _, List.mem_map_of_mem h⟩

section
variable {v w : Value}

theorem forM_congr {α β : Type} {R : α → β → Prop} {f : α → Except Fault Unit}
    {g : β → Except Fault Unit} {xs : List α} {ys : List β} (h : List.Forall₂ R xs ys)
    (hfg : ∀ x ∈ xs, ∀ y, R x y → f x = g y) : xs.forM f = ys.forM g := by
  induction h with
  | nil => rfl
  | cons hxy _ ih =>
    rw [List.forall_mem_cons] at hfg
    rw [forM_cons, forM_cons, hfg.1 _ hxy, ih hfg.2]

theorem checkEach_congr {R : Value → Value → Prop} {ts : List Shape} {vs ws : List Value}
    (h : List.Forall₂ R vs ws) (hR : ∀ t ∈ ts, ∀ v w, R v w → t.check v = t.check w) :
    checkEach ts vs = checkEach ts ws := by
  induction h generalizing ts with
  | nil => rfl
  | cons hvw _ ih =>
    cases ts with
    | nil => rfl
    | cons t ts =>
      rw [List.forall_mem_cons] at hR
      rw [checkEach, checkEach, hR.1 _ _ hvw, ih hR.2]

theorem checkSome_congr {ts : List Shape} (h : ∀ t ∈ ts, t.check v = t.check w) :
    checkSome ts v = checkSome ts w := by
  induction ts with
  | nil => rfl
  | cons t ts ih =>
    rw [List.forall_mem_cons] at h
    rw [checkSome, checkSome, h.1, ih h.2]

theorem fieldCheck_congr {R : Value → Value → Prop} {as bs : Entries Value} {f : Field Shape}
    (h : Option.Rel R (as.get? f.key) (bs.get? f.key))
    (hf : ∀ v w, R v w → f.value.check v = f.value.check w) : f.check as = f.check bs := by
  rw [Field.check, Field.check]
  generalize as.get? f.key = a, bs.get? f.key = b at h
  cases h with
  | none => rfl
  | some hvw => exact hf _ _ hvw

end

section
variable {seen : String → Prop} {R : Value → Value → Prop} {v w : Value}

theorem mismatch_congr (h : v.kind = w.kind) (t : Shape) : t.mismatch v = t.mismatch w := by
  rw [mismatch, mismatch, h]

theorem seen_of_mem_parts {p t : Shape} (h : ∀ key ∈ t.declaredKeys, seen key) (hp : p ∈ t.parts) :
    ∀ key ∈ p.declaredKeys, seen key :=
  fun key hk => h key (declaredKeys_subset_of_mem_parts hp hk)

/-- A check that looks under seen keys only gives the same for related values. -/
theorem check_congr (hR : Value.Alike seen R) (t : Shape)
    (hseen : ∀ key ∈ t.declaredKeys, seen key) (h : R v w) : t.check v = t.check w := by
  induction t generalizing v w with
  | record fields ih =>
    have hm := hR.members h
    rw [check, check, mismatch_congr (hR.kind h)]
    -- The values are forgotten; of their members it is known that they are related.
    generalize v.members? = as, w.members? = bs at hm
    cases hm with
    | none => rfl
    | some hm =>
      simp only [checkFields_eq_forM]
      apply forM_congr (List.forall₂_same.2 fun f _ => Eq.refl f)
      rintro f hf _ rfl
      apply fieldCheck_congr (hm f.key (hseen _ (key_mem_declaredKeys hf)))
      intro v w hvw
      exact ih f hf (seen_of_mem_parts hseen (List.mem_map_of_mem hf)) hvw
  | tuple elements ih =>
    have hi := hR.items h
    rw [check, check, mismatch_congr (hR.kind h)]
    generalize v.items? = vs, w.items? = ws at hi
    cases hi with
    | none => rfl
    | some hvs =>
      have hall := checkEach_congr hvs fun t ht v w hvw =>
        ih t ht (seen_of_mem_parts hseen ht) hvw
      simp only [hvs.length_eq, hall]
  | array element ih =>
    have hi := hR.items h
    rw [check, check, mismatch_congr (hR.kind h)]
    generalize v.items? = vs, w.items? = ws at hi
    cases hi with
    | none => rfl
    | some hvs =>
      apply forM_congr hvs
      intro v _ w hvw
      exact ih (seen_of_mem_parts hseen (List.mem_singleton_self element)) hvw
  | union members ih =>
    rw [check, check, checkSome_congr fun t ht => ih t ht (seen_of_mem_parts hseen ht) h]
  | primitive kind => rw [check, check, Primitive.check, Primitive.check, hR.kind h]
  | literal lit => rw [check, check, Literal.check, Literal.check, hR.literal h]
  | other kind => rw [check, check]

end

end Shape
end Conformance
