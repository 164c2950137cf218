import Conformance.Text.Plain

/-!
# Strings quoted for messages

A message shows a string between double quotes. Backslashes, double quotes and
the common control characters have short escapes; a character that is not plain
is written by its code point.
-/
namespace Conformance.Text

def codePoint (c : Char) : List Char :=
  '\\' :: 'u' :: '\x7b' :: (Nat.toDigits 16 c.toNat ++ ['\x7d'])

def shown (c : Char) : List Char :=
  match c with
  | '\x00' => ['\\', '0']
  | '\t' => ['\\', 't']
  | '\r' => ['\\', 'r']
  | '\n' => ['\\', 'n']
  | '\\' => ['\\', '\\']
  | '"' => ['\\', '"']
  | c => if c.toNat < 0x7F then (if c.toNat < 0x20 then codePoint c else [c])
    else if isPlain c then [c] else codePoint c

def quoted (s : String) : String :=
  String.ofList ('"' :: (s.toList.flatMap shown ++ ['"']))

end Conformance.Text
