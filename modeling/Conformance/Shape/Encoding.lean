import Conformance.Json.Refusal
import Conformance.Shape

/-!
# Wire documents of shapes

`document` is the wire form of a shape: an object whose first member `tag` names
the form of the shape, followed by the members of that form. A number that is
not finite has no spelling in JSON; `document` puts null in its place, and
`encode` refuses the shape at the first such number in the order of the document.
-/
namespace Conformance

def Primitive.document : Primitive → Json
  | null => .null
  | kind => .string kind.keyword

def Literal.document : Literal → Json
  | boolean b => .boolean b
  | number (.finite x) => .number (.float x)
  | number _ => .null
  | string s => .string s

def Literal.notFinite? : Literal → Option Double
  | number (.finite _) => none
  | number x => some x
  | _ => none

namespace Shape

def tagged (tag : String) (members : List (String × Json)) : Json :=
  .object (("tag", .string tag) :: members)

mutual
def document : Shape → Json
  | record fields => tagged "record" [("fields", .array (fieldDocuments fields))]
  | tuple elements => tagged "tuple" [("elementTypes", .array (documents elements))]
  | array element => tagged "array" [("elementType", document element)]
  | union members => tagged "union" [("types", .array (documents members))]
  | primitive kind => tagged "primitive" [("type", kind.document)]
  | literal value => tagged "literal" [("value", value.document)]
  | other kind => tagged "other" [("type", .string kind.keyword)]
def documents : List Shape → List Json
  | [] => []
  | t :: ts => document t :: documents ts
def fieldDocuments : List (Field Shape) → List Json
  | [] => []
  | ⟨key, value, optional⟩ :: fs =>
    .object [("key", .string key), ("value", document value), ("isOptional", .boolean optional)]
      :: fieldDocuments fs
end

def lifted (steps : List Step) : Option (Address × Double) → Option (Address × Double)
  | some (address, x) => some (steps ++ address, x)
  | none => none

mutual
/-- The first number literal without a spelling, with its address in the wire document. -/
def notFinite? : Shape → Option (Address × Double)
  | record fields => lifted [.key "fields"] (notFiniteField? 0 fields)
  | tuple elements => lifted [.key "elementTypes"] (notFiniteAmong? 0 elements)
  | array element => lifted [.key "elementType"] (notFinite? element)
  | union members => lifted [.key "types"] (notFiniteAmong? 0 members)
  | literal value => value.notFinite?.map fun x => ([.key "value"], x)
  | primitive _ | other _ => none
def notFiniteAmong? (i : Nat) : List Shape → Option (Address × Double)
  | [] => none
  | t :: ts =>
    match notFinite? t with
    | some found => lifted [.index i] (some found)
    | none => notFiniteAmong? (i + 1) ts
def notFiniteField? (i : Nat) : List (Field Shape) → Option (Address × Double)
  | [] => none
  | ⟨_, value, _⟩ :: fs =>
    match notFinite? value with
    | some found => lifted [.index i, .key "value"] (some found)
    | none => notFiniteField? (i + 1) fs
end

def encode (t : Shape) : Except Rejection Json :=
  match t.notFinite? with
  | some (address, x) => .error ⟨address, .notFinite x⟩
  | none => .ok t.document

end Shape
end Conformance
