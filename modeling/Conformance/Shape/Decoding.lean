import Conformance.Json.Refusal
import Conformance.Shape

/-!
# Shapes from documents

`Shape.ofJson` reads a wire document. An object is looked at in a fixed order:
its tag first, then the member that the tag calls for, and of a record field the
key, the value and the mark of optional fields. Members that are not called for
are ignored. A missing member is blamed on the object that lacks it, anything
else on the part that is wrong. That no record has a key twice is checked when
all its fields have been read.
-/
namespace Conformance

def Json.asString : Json → Except Complaint String
  | .string s => .ok s
  | j => .error (.wrongType (.ofJson j) "a string")

def Json.asBoolean : Json → Except Complaint Bool
  | .boolean b => .ok b
  | j => .error (.wrongType (.ofJson j) "a boolean")

def Primitive.wanted : String :=
  "null or one of \"undefined\", \"string\", \"boolean\", \"number\", \"bigint\", \"symbol\""

/-- The null kind is spelled by JSON null and never by a string. -/
def Primitive.ofJson : Json → Except Complaint Primitive
  | .null => .ok null
  | .string "undefined" => .ok undefined
  | .string "string" => .ok string
  | .string "boolean" => .ok boolean
  | .string "number" => .ok number
  | .string "bigint" => .ok bigint
  | .string "symbol" => .ok symbol
  | .string s => .error (.wrongValue (.string s) wanted)
  | j => .error (.wrongType (.ofJson j) wanted)

def Literal.ofJson : Json → Except Complaint Literal
  | .boolean b => .ok (boolean b)
  | .number n => .ok (number n.toDouble)
  | .string s => .ok (string s)
  | _ => .error (.noAlternative "Literal")

def Wildcard.ofName (name : String) : Except Complaint Wildcard :=
  match name with
  | "unknown" => .ok unknown
  | "any" => .ok any
  | name => .error (.unknownVariant name ["unknown", "any"])

def Wildcard.ofJson : Json → Except Rejection Wildcard
  | .string name =>
    match ofName name with
    | .ok kind => .ok kind
    | .error c => .error ⟨[], c⟩
  | .object [(name, content)] =>
    match ofName name, content with
    | .ok kind, .null => .ok kind
    | .ok _, content => .error ⟨[.key name], .wrongType (.ofJson content) "unit"⟩
    | .error c, _ => .error ⟨[], c⟩
  | .object _ => .error ⟨[], .wrongValue .map "map with a single key"⟩
  | j => .error ⟨[], .wrongType (.ofJson j) "string or map"⟩

namespace Shape

inductive Tag
  | record
  | tuple
  | array
  | union
  | primitive
  | literal
  | other

def Tag.names : List String :=
  ["record", "tuple", "array", "union", "primitive", "literal", "other"]

def Tag.ofName (name : String) : Except Complaint Tag :=
  match name with
  | "record" => .ok record
  | "tuple" => .ok tuple
  | "array" => .ok array
  | "union" => .ok union
  | "primitive" => .ok primitive
  | "literal" => .ok literal
  | "other" => .ok other
  | name => .error (.unknownVariant name names)

def member (members : List (String × Json)) (key : String) : Except Rejection Json :=
  match Entries.get? members key with
  | some j => .ok j
  | none => .error ⟨[], .missingField key⟩

def leaf {α : Type} (read : Json → Except Rejection α) (members : List (String × Json))
    (key : String) : Except Rejection α :=
  match member members key with
  | .error r => .error r
  | .ok j => (read j).mapError (·.below (.key key))

def scalar {α : Type} (read : Json → Except Complaint α) (j : Json) : Except Rejection α :=
  (read j).mapError (⟨[], ·⟩)

def tagOf (members : List (String × Json)) : Except Rejection Tag :=
  match member members "tag" with
  | .error r => .error r
  | .ok (.string name) => (Tag.ofName name).mapError (⟨[.key "tag"], ·⟩)
  | .ok j => .error ⟨[.key "tag"], .wrongType (.ofJsonAsFloat j) "a tag string"⟩

/-- The first field whose key an earlier field has, with its index; `seen` are the keys before. -/
def repeatedKey? (seen : List String) (i : Nat) : List (Field Shape) → Option (Nat × String)
  | [] => none
  | f :: fs =>
    if f.key ∈ seen then some (i, f.key) else repeatedKey? (f.key :: seen) (i + 1) fs

def ofFields (fields : List (Field Shape)) : Except Rejection Shape :=
  match repeatedKey? [] 0 fields with
  | some (i, key) => .error ⟨[.key "fields", .index i, .key "key"], .duplicateKey key⟩
  | none => .ok (.record fields)

mutual
def ofJson : Json → Except Rejection Shape
  | .object members =>
    match tagOf members with
    | .error r => .error r
    | .ok .record => (fieldsUnder "fields" members) >>= ofFields
    | .ok .tuple => (shapesUnder "elementTypes" members).map tuple
    | .ok .array => (shapeUnder "elementType" members).map array
    | .ok .union => (shapesUnder "types" members).map union
    | .ok .primitive => (leaf (scalar Primitive.ofJson) members "type").map primitive
    | .ok .literal => (leaf (scalar Literal.ofJson) members "value").map literal
    | .ok .other => (leaf Wildcard.ofJson members "type").map other
  | j => .error ⟨[], .wrongType (.ofJsonAsFloat j) "a tagged type object"⟩

def shapeUnder (key : String) : List (String × Json) → Except Rejection Shape
  | [] => .error ⟨[], .missingField key⟩
  | (k, j) :: members =>
    if k = key then (ofJson j).mapError (·.below (.key key)) else shapeUnder key members

def shapesUnder (key : String) : List (String × Json) → Except Rejection (List Shape)
  | [] => .error ⟨[], .missingField key⟩
  | (k, .array items) :: members =>
    if k = key then (shapesOf 0 items).mapError (·.below (.key key)) else shapesUnder key members
  | (k, j) :: members =>
    if k = key then .error ⟨[.key key], .wrongType (.ofJsonAsFloat j) "an array"⟩
    else shapesUnder key members

def shapesOf (i : Nat) : List Json → Except Rejection (List Shape)
  | [] => .ok []
  | j :: items =>
    match (ofJson j).mapError (·.below (.index i)) with
    | .error r => .error r
    | .ok t => (shapesOf (i + 1) items).map (t :: ·)

def fieldsUnder (key : String) : List (String × Json) → Except Rejection (List (Field Shape))
  | [] => .error ⟨[], .missingField key⟩
  | (k, .array items) :: members =>
    if k = key then (fieldsOf 0 items).mapError (·.below (.key key)) else fieldsUnder key members
  | (k, j) :: members =>
    if k = key then .error ⟨[.key key], .wrongType (.ofJsonAsFloat j) "an array"⟩
    else fieldsUnder key members

def fieldsOf (i : Nat) : List Json → Except Rejection (List (Field Shape))
  | [] => .ok []
  | j :: items =>
    match (fieldOf j).mapError (·.below (.index i)) with
    | .error r => .error r
    | .ok f => (fieldsOf (i + 1) items).map (f :: ·)

def fieldOf : Json → Except Rejection (Field Shape)
  | .object members =>
    match leaf (scalar Json.asString) members "key" with
    | .error r => .error r
    | .ok key =>
      match shapeUnder "value" members with
      | .error r => .error r
      | .ok value => (leaf (scalar Json.asBoolean) members "isOptional").map (⟨key, value, ·⟩)
  | j => .error ⟨[], .wrongType (.ofJsonAsFloat j) "a tagged type object"⟩
end

end Shape
end Conformance
