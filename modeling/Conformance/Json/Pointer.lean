import Conformance.Files.Path
import Conformance.Json

/-!
# Pointers into documents

A pointer is empty, for the whole document, or each of its tokens stands behind
a slash. In a token `~1` stands for a slash and `~0` for a tilde; a tilde before
anything else stands for itself. A token selects the member under it as a key,
or the item with it as an index, written without sign and leading zeros.
-/
namespace Conformance.Json

def unescapeTilde (d c : Char) : List Char → List Char
  | [] => []
  | ['~'] => ['~']
  | '~' :: e :: cs =>
    if e = d then c :: unescapeTilde d c cs else '~' :: unescapeTilde d c (e :: cs)
  | a :: cs => a :: unescapeTilde d c cs

def pointerToken (cs : List Char) : List Char :=
  unescapeTilde '0' '~' (unescapeTilde '1' '/' cs)

def index? (cs : List Char) : Option Nat :=
  if cs.isEmpty || !cs.all Char.isDigit || (cs.head? = some '0' && cs.length ≠ 1) then none
  else some (Nat.ofDigitChars 10 cs 0)

def follow (j : Json) : List (List Char) → Option Json
  | [] => some j
  | token :: tokens =>
    match j with
    | .object ms =>
      match Entries.get? ms (String.ofList token) with
      | some j => follow j tokens
      | none => none
    | .array js =>
      match (index? token).bind (js[·]?) with
      | some j => follow j tokens
      | none => none
    | _ => none

def pointer? (j : Json) (pointer : String) : Option Json :=
  match pointer.toList with
  | [] => some j
  | '/' :: cs => j.follow ((Path.splitSlash cs).map pointerToken)
  | _ => none

end Conformance.Json
