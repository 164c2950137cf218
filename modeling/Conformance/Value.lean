import Conformance.Json

/-!
# Dynamic values

The values that are checked. JSON documents give most of them; `undefined`, big
integers and symbols come only from hosts that build values themselves. Objects
keep the order of their members, but two objects are equal as soon as they have
equally many members and every key of the one has an equal value in the other.
-/
namespace Conformance

inductive Value
  | undefined
  | null
  | boolean (value : Bool)
  | number (value : Double)
  | bigint (value : Int)
  | string (value : String)
  | symbol (description : Option String)
  | array (items : List Value)
  | object (members : List (String × Value))
deriving Inhabited

inductive Kind
  | undefined
  | null
  | boolean
  | number
  | bigint
  | string
  | symbol
  | array
  | object
deriving DecidableEq

def Kind.keyword : Kind → String
  | undefined => "undefined"
  | null => "null"
  | boolean => "boolean"
  | number => "number"
  | bigint => "bigint"
  | string => "string"
  | symbol => "symbol"
  | array => "array"
  | object => "object"

namespace Value

def kind : Value → Kind
  | undefined => .undefined
  | null => .null
  | boolean _ => .boolean
  | number _ => .number
  | bigint _ => .bigint
  | string _ => .string
  | symbol _ => .symbol
  | array _ => .array
  | object _ => .object

def items? : Value → Option (List Value)
  | array items => some items
  | _ => none

def members? : Value → Option (Entries Value)
  | object members => some members
  | _ => none

def ofInt32 (n : Int32) : Value := number (.ofInt n.toInt)

mutual
/-- The value that a document stands for; its numbers are rounded to binary64. -/
def ofJson : Json → Value
  | .null => null
  | .boolean b => boolean b
  | .number n => number n.toDouble
  | .string s => string s
  | .array js => array (ofItems js)
  | .object ms => object (ofMembers ms)
def ofItems : List Json → List Value
  | [] => []
  | j :: js => ofJson j :: ofItems js
def ofMembers : List (String × Json) → List (String × Value)
  | [] => []
  | (k, j) :: ms => (k, ofJson j) :: ofMembers ms
end

mutual
/-- Equality of values. Numbers are compared as numbers, and the order of members is ignored. -/
def equals : Value → Value → Bool
  | undefined, undefined => true
  | null, null => true
  | boolean a, boolean b => a == b
  | number a, number b => a.equals b
  | bigint a, bigint b => a == b
  | string a, string b => a == b
  | symbol a, symbol b => a == b
  | array as, array bs => itemsEqual as bs
  | object as, object bs => as.length == bs.length && membersEqual as bs
  | _, _ => false
def itemsEqual : List Value → List Value → Bool
  | [], [] => true
  | a :: as, b :: bs => equals a b && itemsEqual as bs
  | _, _ => false
def membersEqual : List (String × Value) → List (String × Value) → Bool
  | [], _ => true
  | (k, a) :: as, bs =>
    (match Entries.get? bs k with
      | some b => equals a b
      | none => false) && membersEqual as bs
end

mutual
def WellFormed : Value → Prop
  | array items => WellFormedItems items
  | object members => Entries.Distinct members ∧ WellFormedMembers members
  | _ => True
def WellFormedItems : List Value → Prop
  | [] => True
  | v :: vs => WellFormed v ∧ WellFormedItems vs
def WellFormedMembers : List (String × Value) → Prop
  | [] => True
  | (_, v) :: ms => WellFormed v ∧ WellFormedMembers ms
end

end Value
end Conformance
