import Conformance.Proofs.Shape.PassedOn

/-!
# The same shape checks the same

Two equalities of numbers meet in a check. Shapes are the same by `Double.same`,
under which a NaN is the same as a NaN; a value matches a number literal by
`Double.equals`, under which it never is. Both take the two zeros for one number,
so shapes that are the same differ at most in the signs of zeros among their
literals (`same_iff`). The main statement is that no check tells them apart: the
same values are accepted, and what is reported of the others is the same except
for the signs of zeros in the text of a type.
-/
namespace Conformance

def Finite.negativeZero : Finite := { Finite.zero with negative := true }

def Finite.unsignedZero (x : Finite) : Finite := if x.rank = 0 then zero else x

theorem Finite.equals_iff {x y : Finite} :
    x.equals y = true ↔ x.unsignedZero = y.unsignedZero := by
  obtain ⟨m, r, hr⟩ := x
  obtain ⟨n, s, hs⟩ := y
  simp only [Finite.equals, unsignedZero, zero, Bool.and_eq_true, Bool.or_eq_true, beq_iff_eq]
  split_ifs <;> grind

def Double.unsignedZero : Double → Double
  | finite x => finite x.unsignedZero
  | x => x

theorem Double.same_iff {x y : Double} : x.same y = true ↔ x.unsignedZero = y.unsignedZero := by
  cases x <;> cases y <;> simp [same, equals, unsignedZero, Finite.equals_iff]

/-- Numbers that are the same equal the same numbers: where they are not equal themselves, both are
NaN and equal none. -/
theorem Double.equals_congr {x y : Double} (h : x.same y = true) (z : Double) :
    z.equals x = z.equals y := by
  have hor : x = y ∨ x.equals y = true := by
    cases x <;> cases y <;> simp_all [same, equals]
  rcases hor with rfl | hxy
  · rfl
  · exact equals_right hxy z

namespace Literal

variable {a b : Literal}

theorem same_iff :
    a.same b = true ↔ a.mapNumber Double.unsignedZero = b.mapNumber Double.unsignedZero := by
  cases a <;> cases b <;> simp [same, mapNumber, Double.same_iff]

theorem matches_congr (h : a.same b = true) (v : Value) : a.matches v = b.matches v := by
  cases a <;> cases b <;> simp only [same, Bool.false_eq_true, beq_iff_eq] at h
  · rw [h]
  · cases v with
    | number z => exact Double.equals_congr h z
    | _ => rfl
  · rw [h]

end Literal

namespace Fault

inductive Agrees (R : String → String → Prop) : Fault → Fault → Prop
  | shapeMismatch {a b : String} (h : R a b) (observed : Kind) :
      Agrees R (.shapeMismatch a observed) (.shapeMismatch b observed)
  | missingField (key : String) : Agrees R (.missingField key) (.missingField key)
  | literalMismatch {a b : String} (h : R a b) :
      Agrees R (.literalMismatch a) (.literalMismatch b)
  | unionExhausted {a b : String} (h : R a b) : Agrees R (.unionExhausted a) (.unionExhausted b)
  | tupleArity {a b : String} (h : R a b) (expected actual : Nat) :
      Agrees R (.tupleArity a expected actual) (.tupleArity b expected actual)

theorem Agrees.kind_eq {R : String → String → Prop} {e f : Fault} (h : e.Agrees R f) :
    e.kind = f.kind := by
  cases h <;> rfl

end Fault

namespace Shape

variable {t u : Shape} {v : Value}

theorem sameAll_iff {ts us : List Shape}
    (h : ∀ t ∈ ts, ∀ u, t.same u = true ↔
      t.mapNumbers Double.unsignedZero = u.mapNumbers Double.unsignedZero) :
    sameAll ts us = true ↔
      mapNumbersOfAll Double.unsignedZero ts = mapNumbersOfAll Double.unsignedZero us := by
  induction ts generalizing us with
  | nil => cases us <;> simp [sameAll, mapNumbersOfAll]
  | cons t ts ih =>
    obtain ⟨ht, hts⟩ := List.forall_mem_cons.1 h
    cases us with
    | nil => simp [sameAll, mapNumbersOfAll]
    | cons u us => simp [sameAll, mapNumbersOfAll, ht, ih hts]

theorem sameFields_iff {fs gs : List (Field Shape)}
    (h : ∀ f ∈ fs, ∀ u, f.value.same u = true ↔
      f.value.mapNumbers Double.unsignedZero = u.mapNumbers Double.unsignedZero) :
    sameFields fs gs = true ↔
      mapNumbersOfFields Double.unsignedZero fs = mapNumbersOfFields Double.unsignedZero gs := by
  induction fs generalizing gs with
  | nil => cases gs <;> simp [sameFields, mapNumbersOfFields]
  | cons f fs ih =>
    obtain ⟨hf, hfs⟩ := List.forall_mem_cons.1 h
    cases gs with
    | nil => simp [sameFields, mapNumbersOfFields]
    | cons g gs => simp [sameFields, mapNumbersOfFields, hf, ih hfs, and_assoc]

theorem same_iff :
    t.same u = true ↔ t.mapNumbers Double.unsignedZero = u.mapNumbers Double.unsignedZero := by
  induction t generalizing u with
  | record fields ih => cases u <;> simp [same, mapNumbers, sameFields_iff fun f hf _ => ih f hf]
  | tuple elements ih => cases u <;> simp [same, mapNumbers, sameAll_iff fun t ht _ => ih t ht]
  | array element ih => cases u <;> simp [same, mapNumbers, ih]
  | union members ih => cases u <;> simp [same, mapNumbers, sameAll_iff fun t ht _ => ih t ht]
  | primitive kind => cases u <;> simp [same, mapNumbers]
  | literal value => cases u <;> simp [same, mapNumbers, Literal.same_iff]
  | other kind => cases u <;> simp [same, mapNumbers]

def SameText (a b : String) : Prop :=
  ∃ s r : Shape, s.render = a ∧ r.render = b ∧
    s.mapNumbers Double.unsignedZero = r.mapNumbers Double.unsignedZero

theorem sameText_render (h : t.same u = true) : SameText t.render u.render :=
  ⟨t, u, rfl, rfl, same_iff.1 h⟩

/-- Both accept, or both find the same fault up to the signs of zeros in texts. -/
inductive SameOutcome : Except Fault Unit → Except Fault Unit → Prop
  | accepted : SameOutcome (.ok ()) (.ok ())
  | refused {e f : Fault} (h : e.Agrees SameText f) : SameOutcome (.error e) (.error f)

def CheckedAlike (t u : Shape) : Prop := ∀ v, SameOutcome (t.check v) (u.check v)

structure FieldCheckedAlike (f g : Field Shape) : Prop where
  key : f.key = g.key
  optional : f.optional = g.optional
  value : CheckedAlike f.value g.value

theorem forall₂_of_sameAll {R : Shape → Shape → Prop} {ts us : List Shape}
    (h : ∀ t ∈ ts, ∀ u, t.same u = true → R t u) (hs : sameAll ts us = true) :
    List.Forall₂ R ts us := by
  induction ts generalizing us with
  | nil =>
    cases us with
    | nil => exact .nil
    | cons u us => simp [sameAll] at hs
  | cons t ts ih =>
    cases us with
    | nil => simp [sameAll] at hs
    | cons u us =>
      obtain ⟨ht, hts⟩ := List.forall_mem_cons.1 h
      rw [sameAll, Bool.and_eq_true] at hs
      exact .cons (ht u hs.1) (ih hts hs.2)

theorem forall₂_of_sameFields {fs gs : List (Field Shape)}
    (h : ∀ f ∈ fs, ∀ u, f.value.same u = true → CheckedAlike f.value u)
    (hs : sameFields fs gs = true) : List.Forall₂ FieldCheckedAlike fs gs := by
  induction fs generalizing gs with
  | nil =>
    cases gs with
    | nil => exact .nil
    | cons g gs => simp [sameFields] at hs
  | cons f fs ih =>
    cases gs with
    | nil => simp [sameFields] at hs
    | cons g gs =>
      obtain ⟨hf, hfs⟩ := List.forall_mem_cons.1 h
      simp only [sameFields, Bool.and_eq_true, beq_iff_eq] at hs
      obtain ⟨⟨⟨hk, hv⟩, ho⟩, hs⟩ := hs
      exact .cons ⟨hk, ho, hf _ hv⟩ (ih hfs hs)

theorem SameOutcome.bind {x x' y y' : Except Fault Unit} (h : SameOutcome x x')
    (h' : SameOutcome y y') : SameOutcome (x.bind fun _ => y) (x'.bind fun _ => y') := by
  cases h with
  | accepted => exact h'
  | refused h => exact .refused h

theorem SameOutcome.isOk_eq {x x' : Except Fault Unit} (h : SameOutcome x x') :
    x.isOk = x'.isOk := by
  cases h <;> rfl

theorem SameOutcome.forM {α β : Type} {R : α → β → Prop} {f : α → Except Fault Unit}
    {g : β → Except Fault Unit} {xs : List α} {ys : List β} (h : List.Forall₂ R xs ys)
    (hfg : ∀ x y, R x y → SameOutcome (f x) (g y)) : SameOutcome (xs.forM f) (ys.forM g) := by
  induction h with
  | nil => exact .accepted
  | cons hxy _ ih =>
    rw [forM_cons, forM_cons]
    exact (hfg _ _ hxy).bind ih

theorem checkEach_cons (t : Shape) (ts : List Shape) (v : Value) (vs : List Value) :
    checkEach (t :: ts) (v :: vs) = (t.check v).bind fun _ => checkEach ts vs := by
  rw [checkEach]
  cases t.check v <;> rfl

theorem sameOutcome_checkEach {ts us : List Shape} (h : List.Forall₂ CheckedAlike ts us)
    (vs : List Value) : SameOutcome (checkEach ts vs) (checkEach us vs) := by
  induction h generalizing vs with
  | nil => exact .accepted
  | cons htu _ ih =>
    cases vs with
    | nil => exact .accepted
    | cons v vs =>
      rw [checkEach_cons, checkEach_cons]
      exact (htu v).bind (ih vs)

theorem checkSome_eq_of_forall₂ {ts us : List Shape} (h : List.Forall₂ CheckedAlike ts us)
    (v : Value) : checkSome ts v = checkSome us v := by
  induction h with
  | nil => rfl
  | cons htu _ ih => rw [checkSome, checkSome, (htu v).isOk_eq, ih]

theorem sameOutcome_fieldCheck {f g : Field Shape} (h : FieldCheckedAlike f g)
    (members : Entries Value) : SameOutcome (f.check members) (g.check members) := by
  rw [Field.check, Field.check, h.key, h.optional]
  cases members.get? g.key with
  | some v => exact h.value v
  | none =>
    cases g.optional with
    | true => exact .accepted
    | false => exact .refused (.missingField g.key)

theorem sameOutcome_mismatch (h : t.same u = true) (v : Value) :
    SameOutcome (.error (t.mismatch v)) (.error (u.mismatch v)) :=
  .refused (.shapeMismatch (sameText_render h) v.kind)

theorem sameOutcome_primitive (kind : Primitive) (v : Value) :
    SameOutcome ((primitive kind).check v) ((primitive kind).check v) := by
  have ht : SameText kind.keyword kind.keyword := by
    have hr : (primitive kind).render = kind.keyword := by simp [render, text]
    exact ⟨_, _, hr, hr, rfl⟩
  rw [check, Primitive.check]
  split_ifs
  · exact .accepted
  · exact .refused (.shapeMismatch ht v.kind)

theorem checkedAlike_of_same (h : t.same u = true) : CheckedAlike t u := by
  intro v
  induction t generalizing u v with
  | record fields ih =>
    cases u with
    | record fields' =>
      rw [check, check]
      cases v.members? with
      | none => exact sameOutcome_mismatch h v
      | some members =>
        have hf := forall₂_of_sameFields (fun f hf u hu v => ih f hf hu v) h
        simp only [checkFields_eq_forM]
        exact .forM hf fun f g hfg => sameOutcome_fieldCheck hfg members
    -- Shapes of two forms are never the same.
    | _ => cases h
  | tuple elements ih =>
    cases u with
    | tuple elements' =>
      have he : List.Forall₂ CheckedAlike elements elements' :=
        forall₂_of_sameAll (fun t ht u hu v => ih t ht hu v) h
      rw [check, check]
      cases v.items? with
      | none => exact sameOutcome_mismatch h v
      | some items =>
        simp only [he.length_eq]
        split_ifs
        · exact .refused (.tupleArity (sameText_render h) _ _)
        · exact sameOutcome_checkEach he items
    | _ => cases h
  | array element ih =>
    cases u with
    | array element' =>
      rw [check, check]
      cases v.items? with
      | none => exact sameOutcome_mismatch h v
      | some items =>
        apply SameOutcome.forM (List.forall₂_same.2 fun item _ => Eq.refl item)
        rintro item _ rfl
        exact ih h item
    | _ => cases h
  | union members ih =>
    cases u with
    | union members' =>
      have hm : List.Forall₂ CheckedAlike members members' :=
        forall₂_of_sameAll (fun t ht u hu v => ih t ht hu v) h
      rw [check, check, checkSome_eq_of_forall₂ hm]
      split_ifs
      · exact .accepted
      · exact .refused (.unionExhausted (sameText_render h))
    | _ => cases h
  | primitive kind =>
    cases u with
    | primitive kind' =>
      obtain rfl : kind = kind' := of_decide_eq_true h
      exact sameOutcome_primitive kind v
    | _ => cases h
  | literal value =>
    cases u with
    | literal value' =>
      rw [check, check, Literal.check, Literal.check, Literal.matches_congr h]
      split_ifs
      · exact .accepted
      · exact .refused (.literalMismatch (sameText_render h))
    | _ => cases h
  | other kind =>
    cases u with
    | other kind' => exact .accepted
    | _ => cases h

/-- Shapes that are the same accept the same values. A value that they refuse is refused for faults
of one kind, with the same observed kind, the same missing key and the same lengths; only the texts
of types may differ, and only in the signs of zeros. -/
theorem accept_of_same (t u : Shape) (h : t.same u = true) (v : Value) :
    (t.accept v = .ok v ∧ u.accept v = .ok v) ∨
      ∃ e f, t.accept v = .error e ∧ u.accept v = .error f ∧ e.kind = f.kind ∧
        e.Agrees SameText f := by
  have hv : SameOutcome (t.check v) (u.check v) := checkedAlike_of_same h v
  rw [accept_eq_map_check, accept_eq_map_check]
  generalize t.check v = x, u.check v = y at hv
  cases hv with
  | accepted => exact .inl ⟨rfl, rfl⟩
  | refused hef => exact .inr ⟨_, _, rfl, rfl, hef.kind_eq, hef⟩

def zerosThen (zero : Finite) : Shape :=
  tuple [array (literal (.number (.finite zero))),
    union [literal (.number (.finite zero)), literal (.number .nan)]]

theorem nan_refused_under_both_zeros :
    (zerosThen .zero).same (zerosThen .negativeZero) = true ∧
      Fault.Agrees SameText (.unionExhausted "0 | NaN") (.unionExhausted "-0 | NaN") := by
  have hs : (zerosThen .zero).same (zerosThen .negativeZero) = true := rfl
  have ha := accept_of_same _ _ hs (.array [.array [.number (.finite .zero)], .number .nan])
  have hzero : (zerosThen .zero).accept (.array [.array [.number (.finite .zero)], .number .nan])
      = .error (.unionExhausted "0 | NaN") := rfl
  have hnegative : (zerosThen .negativeZero).accept
      (.array [.array [.number (.finite .zero)], .number .nan])
      = .error (.unionExhausted "-0 | NaN") := rfl
  rw [hzero, hnegative] at ha
  refine ⟨hs, ?_⟩
  obtain ⟨h, -⟩ | ⟨e, f, he, hf, -, hef⟩ := ha
  · cases h
  · cases he
    cases hf
    exact hef

end Shape
end Conformance
