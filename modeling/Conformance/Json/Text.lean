import Conformance.Double.Text
import Conformance.Json

/-!
# JSON text

The compact text of a document: no blanks, members in their order, strings with
the short escapes where there are any, and floats in the style
`NumberStyle.json`.
-/
namespace Conformance.Json

def escaped (c : Char) : List Char :=
  match c with
  | '"' => ['\\', '"']
  | '\\' => ['\\', '\\']
  | '\n' => ['\\', 'n']
  | '\r' => ['\\', 'r']
  | '\t' => ['\\', 't']
  | '\x08' => ['\\', 'b']
  | '\x0c' => ['\\', 'f']
  | c =>
    if c.toNat < 0x20 then
      ['\\', 'u', '0', '0', Nat.digitChar (c.toNat / 16), Nat.digitChar (c.toNat % 16)]
    else [c]

def quoted (s : String) : List Char :=
  '"' :: (s.toList.flatMap escaped ++ ['"'])

def integerText (n : Int) : List Char :=
  (if n < 0 then ['-'] else []) ++ Nat.toDigits 10 n.natAbs

def Number.text : Number → List Char
  | integer n _ _ => integerText n
  | float x => x.text .json

mutual
def text : Json → List Char
  | null => ['n', 'u', 'l', 'l']
  | boolean true => ['t', 'r', 'u', 'e']
  | boolean false => ['f', 'a', 'l', 's', 'e']
  | number n => n.text
  | string s => quoted s
  | array [] => ['[', ']']
  | array (j :: js) => '[' :: (text j ++ textOfItems js)
  | object [] => ['{', '}']
  | object ((k, j) :: ms) => '{' :: (quoted k ++ ':' :: (text j ++ textOfMembers ms))
def textOfItems : List Json → List Char
  | [] => [']']
  | j :: js => ',' :: (text j ++ textOfItems js)
def textOfMembers : List (String × Json) → List Char
  | [] => ['}']
  | (k, j) :: ms => ',' :: (quoted k ++ ':' :: (text j ++ textOfMembers ms))
end

def compact (j : Json) : String := String.ofList j.text

end Conformance.Json
