import Conformance.Check
import Conformance.Proofs.Shape.Nodes

/-!
# The fault of a value

`Shape.check` goes the way of `accept` and keeps no more of it than the fault, if
there is one. A value that is accepted is handed back as it came, by every branch
and through every union, so a check says all there is to say about acceptance.
-/
namespace Conformance

def Primitive.check (kind : Primitive) (v : Value) : Except Fault Unit :=
  if (kind = .null ∧ v.kind = .null) ∨ v.kind.primitive? = some kind then .ok ()
  else .error (.shapeMismatch kind.keyword v.kind)

def Literal.check (lit : Literal) (v : Value) : Except Fault Unit :=
  if lit.matches v then .ok () else .error (.literalMismatch (String.ofList lit.text))

namespace Shape

mutual
def check : Shape → Value → Except Fault Unit
  | primitive kind, v => kind.check v
  | literal lit, v => lit.check v
  | array element, v =>
    match v.items? with
    | none => .error ((array element).mismatch v)
    | some items => items.forM fun item => check element item
  | tuple elements, v =>
    match v.items? with
    | none => .error ((tuple elements).mismatch v)
    | some items =>
      if items.length ≠ elements.length then
        .error (.tupleArity (tuple elements).render elements.length items.length)
      else checkEach elements items
  | union members, v =>
    if checkSome members v then .ok () else .error (.unionExhausted (union members).render)
  | record fields, v =>
    match v.members? with
    | none => .error ((record fields).mismatch v)
    | some members => checkFields fields members
  | other _, _ => .ok ()

def checkEach : List Shape → List Value → Except Fault Unit
  | t :: ts, v :: vs =>
    match check t v with
    | .error e => .error e
    | .ok () => checkEach ts vs
  | _, _ => .ok ()

def checkSome : List Shape → Value → Bool
  | [], _ => false
  | t :: ts, v => (check t v).isOk || checkSome ts v

def checkFields : List (Field Shape) → Entries Value → Except Fault Unit
  | [], _ => .ok ()
  | ⟨key, value, optional⟩ :: fields, members =>
    match members.get? key with
    | some v =>
      match check value v with
      | .error e => .error e
      | .ok () => checkFields fields members
    | none => if optional then checkFields fields members else .error (.missingField key)
end

section
variable {ts : List Shape} {fields : List (Field Shape)}

theorem acceptEach_eq (h : ∀ t ∈ ts, ∀ v, t.accept v = (t.check v).map fun _ => v)
    (vs : List Value) : acceptEach ts vs = checkEach ts vs := by
  induction ts generalizing vs with
  | nil => rfl
  | cons t ts ih =>
    rw [List.forall_mem_cons] at h
    cases vs with
    | nil => rfl
    | cons v vs =>
      rw [acceptEach, checkEach, h.1 v, ih h.2]
      cases t.check v <;> rfl

theorem acceptSome_eq (h : ∀ t ∈ ts, ∀ v, t.accept v = (t.check v).map fun _ => v) (v : Value) :
    acceptSome ts v = if checkSome ts v then some v else none := by
  induction ts with
  | nil => rfl
  | cons t ts ih =>
    rw [List.forall_mem_cons] at h
    rw [acceptSome, checkSome, h.1 v, ih h.2]
    cases t.check v <;> rfl

theorem acceptFields_eq (h : ∀ f ∈ fields, ∀ v, f.value.accept v = (f.value.check v).map fun _ => v)
    (members : Entries Value) : acceptFields fields members = checkFields fields members := by
  induction fields with
  | nil => rfl
  | cons f fields ih =>
    rw [List.forall_mem_cons] at h
    rw [acceptFields, checkFields, ih h.2]
    cases members.get? f.key with
    | none => rfl
    | some v =>
      dsimp only
      rw [h.1 v]
      cases f.value.check v <;> rfl

end

theorem accept_eq_map_check (t : Shape) (v : Value) : t.accept v = (t.check v).map fun _ => v := by
  induction t generalizing v with
  | record fields ih =>
    rw [accept, check]
    cases v.members? with
    | none => rfl
    | some members =>
      dsimp only
      rw [acceptFields_eq ih]
      cases checkFields fields members <;> rfl
  | tuple elements ih =>
    rw [accept, check]
    cases v.items? with
    | none => rfl
    | some items =>
      dsimp only
      rw [acceptEach_eq ih]
      split
      · rfl
      · cases checkEach elements items <;> rfl
  | array element ih =>
    have hitem (w : Value) : ((element.accept w).map fun _ => ()) = element.check w := by
      rw [ih w]
      cases element.check w <;> rfl
    simp only [accept, check, hitem]
    cases v.items? with
    | none => rfl
    | some items =>
      dsimp only
      cases items.forM (check element) <;> rfl
  | union members ih =>
    -- A member hands back the value, so this is what the union hands on.
    rw [accept, check, acceptSome_eq ih]
    cases checkSome members v <;> rfl
  | primitive kind =>
    rw [accept, check, Primitive.accept, Primitive.check]
    split <;> rfl
  | literal lit =>
    rw [accept, check, Literal.accept, Literal.check]
    split <;> rfl
  | other kind => rfl

theorem accept_eq_ok_iff_check {t : Shape} {v w : Value} :
    t.accept v = .ok w ↔ w = v ∧ t.check v = .ok () := by
  rw [accept_eq_map_check]
  cases t.check v <;> simp [Except.map, eq_comm]

theorem accept_eq_error_iff_check {t : Shape} {v : Value} {e : Fault} :
    t.accept v = .error e ↔ t.check v = .error e := by
  rw [accept_eq_map_check]
  cases t.check v <;> simp [Except.map]

end Shape
end Conformance
