import Conformance.Fault
import Conformance.Shape.Text

/-!
# Checking values against shapes

`Shape.accept` walks a shape along a value and stops at the first fault; without
one it hands back the value. The members of a union are tried in order, and what
the first one hands back is handed on; why the others reject the value is
forgotten, and only that the union is exhausted is reported. Keys that a record
does not declare are never looked at, and a declared key whose value is
`undefined` counts as present.
-/
namespace Conformance

/-- The primitive kind that a dynamic kind answers to. Null is a kind of its own: it answers to
none here, as little as arrays and objects do. -/
def Kind.primitive? : Kind → Option Primitive
  | undefined => some .undefined
  | boolean => some .boolean
  | number => some .number
  | bigint => some .bigint
  | string => some .string
  | symbol => some .symbol
  | null | array | object => none

def Primitive.accept (kind : Primitive) (v : Value) : Except Fault Value :=
  if (kind = .null ∧ v.kind = .null) ∨ v.kind.primitive? = some kind then .ok v
  else .error (.shapeMismatch kind.keyword v.kind)

def Literal.matches : Literal → Value → Bool
  | boolean a, .boolean b => a == b
  | number a, .number b => b.equals a
  | string a, .string b => a == b
  | _, _ => false

def Literal.accept (lit : Literal) (v : Value) : Except Fault Value :=
  if lit.matches v then .ok v else .error (.literalMismatch (String.ofList lit.text))

namespace Shape

def mismatch (t : Shape) (v : Value) : Fault := .shapeMismatch t.render v.kind

mutual
def accept : Shape → Value → Except Fault Value
  | primitive kind, v => kind.accept v
  | literal lit, v => lit.accept v
  | array element, v =>
    match v.items? with
    | none => .error ((array element).mismatch v)
    | some items =>
      match items.forM fun item => (accept element item).map fun _ => () with
      | .error e => .error e
      | .ok () => .ok v
  | tuple elements, v =>
    match v.items? with
    | none => .error ((tuple elements).mismatch v)
    | some items =>
      if items.length ≠ elements.length then
        .error (.tupleArity (tuple elements).render elements.length items.length)
      else
        match acceptEach elements items with
        | .error e => .error e
        | .ok () => .ok v
  | union members, v =>
    match acceptSome members v with
    | some w => .ok w
    | none => .error (.unionExhausted (union members).render)
  | record fields, v =>
    match v.members? with
    | none => .error ((record fields).mismatch v)
    | some members =>
      match acceptFields fields members with
      | .error e => .error e
      | .ok () => .ok v
  | other _, v => .ok v

def acceptEach : List Shape → List Value → Except Fault Unit
  | t :: ts, v :: vs =>
    match accept t v with
    | .error e => .error e
    | .ok _ => acceptEach ts vs
  | _, _ => .ok ()

def acceptSome : List Shape → Value → Option Value
  | [], _ => none
  | t :: ts, v =>
    match accept t v with
    | .ok w => some w
    | .error _ => acceptSome ts v

def acceptFields : List (Field Shape) → Entries Value → Except Fault Unit
  | [], _ => .ok ()
  | ⟨key, value, optional⟩ :: fields, members =>
    match members.get? key with
    | some v =>
      match accept value v with
      | .error e => .error e
      | .ok _ => acceptFields fields members
    | none => if optional then acceptFields fields members else .error (.missingField key)
end

end Shape
end Conformance
