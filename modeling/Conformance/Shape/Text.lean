import Conformance.Double.Text
import Conformance.Shape

/-!
# Canonical text of shapes

The text by which messages name a shape: `string`, `5`, `[A, B]`, `A | B`,
`{ k: A; o?: B }`, and `A[]` for arrays. Literal strings stand without quotes.
A union that is the element of an array stands in parentheses, so that
`(A | B)[]` is not taken for `A | B[]`.
-/
namespace Conformance

def Literal.text : Literal → List Char
  | boolean true => ['t', 'r', 'u', 'e']
  | boolean false => ['f', 'a', 'l', 's', 'e']
  | number x => x.text .canonical
  | string s => s.toList

namespace Shape

def isUnion : Shape → Bool
  | union _ => true
  | _ => false

mutual
def text : Shape → List Char
  | record [] => ['{', '}']
  | record (f :: fs) =>
    '{' :: ' ' :: ([';', ' '].intercalate (fieldTexts (f :: fs)) ++ [' ', '}'])
  | tuple elements => '[' :: ([',', ' '].intercalate (texts elements) ++ [']'])
  | array element =>
    (if element.isUnion then '(' :: (text element ++ [')']) else text element) ++ ['[', ']']
  | union members => [' ', '|', ' '].intercalate (texts members)
  | primitive kind => kind.keyword.toList
  | literal value => value.text
  | other kind => kind.keyword.toList
def texts : List Shape → List (List Char)
  | [] => []
  | t :: ts => text t :: texts ts
def fieldTexts : List (Field Shape) → List (List Char)
  | [] => []
  | ⟨key, value, optional⟩ :: fs =>
    (key.toList ++ (if optional then ['?'] else []) ++ ':' :: ' ' :: text value) :: fieldTexts fs
end

def render (t : Shape) : String := String.ofList t.text

end Shape
end Conformance
