import Conformance.Double.Rounding
import Conformance.Entries

/-!
# JSON documents

A number is kept as a whole number when it is written as one and fits 64 bits,
and as a finite binary64 number otherwise. The members of an object stand in
the order in which their keys first came; `WellFormed` says that no object has
a key twice, which holds of every document that is read from text.
-/
namespace Conformance

namespace Json

inductive Number
  | integer (value : Int) (lower : -0x8000000000000000 ≤ value)
      (upper : value < 0x10000000000000000)
  | float (value : Finite)
deriving DecidableEq

namespace Number

def toDouble : Number → Double
  | integer n _ _ => .ofInt n
  | float x => .finite x

end Number
end Json

inductive Json
  | null
  | boolean (value : Bool)
  | number (value : Json.Number)
  | string (value : String)
  | array (items : List Json)
  | object (members : List (String × Json))
deriving Inhabited

namespace Json

mutual
def depth : Json → Nat
  | array items => depthOfItems items + 1
  | object members => depthOfMembers members + 1
  | _ => 0
def depthOfItems : List Json → Nat
  | [] => 0
  | j :: js => max (depth j) (depthOfItems js)
def depthOfMembers : List (String × Json) → Nat
  | [] => 0
  | (_, j) :: ms => max (depth j) (depthOfMembers ms)
end

mutual
/-- No object has a key twice, at any depth. -/
def WellFormed : Json → Prop
  | array items => WellFormedItems items
  | object members => Entries.Distinct members ∧ WellFormedMembers members
  | _ => True
def WellFormedItems : List Json → Prop
  | [] => True
  | j :: js => WellFormed j ∧ WellFormedItems js
def WellFormedMembers : List (String × Json) → Prop
  | [] => True
  | (_, j) :: ms => WellFormed j ∧ WellFormedMembers ms
end

end Json
end Conformance
