import Conformance.Double.Rounding

/-!
# Type descriptions

A shape describes a structural type: records of required and optional fields,
tuples of an exact length, arrays, unions that are tried in order, primitive
kinds, literals, and the two types that anything has. Two shapes are the same
when they agree part by part; number literals are compared by `Double.same`.
-/
namespace Conformance

inductive Primitive
  | null
  | undefined
  | string
  | boolean
  | number
  | bigint
  | symbol
deriving DecidableEq

inductive Literal
  | boolean (value : Bool)
  | number (value : Double)
  | string (value : String)

inductive Wildcard
  | unknown
  | any
deriving DecidableEq

structure Field (α : Type) where
  key : String
  value : α
  optional : Bool

inductive Shape
  | record (fields : List (Field Shape))
  | tuple (elements : List Shape)
  | array (element : Shape)
  | union (members : List Shape)
  | primitive (kind : Primitive)
  | literal (value : Literal)
  | other (kind : Wildcard)

namespace Primitive

def keyword : Primitive → String
  | null => "null"
  | undefined => "undefined"
  | string => "string"
  | boolean => "boolean"
  | number => "number"
  | bigint => "bigint"
  | symbol => "symbol"

def all : List Primitive := [null, undefined, string, boolean, number, bigint, symbol]

end Primitive

def Wildcard.keyword : Wildcard → String
  | unknown => "unknown"
  | any => "any"

namespace Literal

def ofNumber? (x : Double) : Option Literal :=
  if x.isFinite then some (number x) else none

def ofInt32 (n : Int32) : Literal := number (.ofInt n.toInt)

def same : Literal → Literal → Bool
  | boolean a, boolean b => a == b
  | number a, number b => a.same b
  | string a, string b => a == b
  | _, _ => false

end Literal

namespace Shape

mutual
def same : Shape → Shape → Bool
  | record as, record bs => sameFields as bs
  | tuple as, tuple bs => sameAll as bs
  | array a, array b => same a b
  | union as, union bs => sameAll as bs
  | primitive a, primitive b => a == b
  | literal a, literal b => a.same b
  | other a, other b => a == b
  | _, _ => false
def sameAll : List Shape → List Shape → Bool
  | [], [] => true
  | a :: as, b :: bs => same a b && sameAll as bs
  | _, _ => false
def sameFields : List (Field Shape) → List (Field Shape) → Bool
  | [], [] => true
  | ⟨k, a, o⟩ :: as, ⟨l, b, p⟩ :: bs => k == l && same a b && o == p && sameFields as bs
  | _, _ => false
end

end Shape
end Conformance
