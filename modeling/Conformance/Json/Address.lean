/-!
# Addresses inside a document

An address lists the steps from the root of a document down to a place in it:
indices of lists, keys of objects, and an unknown step where a key was looked
for but not found. Its text joins keys with dots and puts indices in brackets;
the root is written as one dot. `under` puts the text of an address behind that
of a base.
-/
namespace Conformance

inductive Step
  | index (i : Nat)
  | key (name : String)
  | unknown
deriving DecidableEq, Repr

abbrev Address := List Step

namespace Address

def stepText : Step → String
  | .index i => "[" ++ toString i ++ "]"
  | .key name => name
  | .unknown => "?"

def tailText : Address → String
  | [] => ""
  | .index i :: steps => stepText (.index i) ++ tailText steps
  | step :: steps => "." ++ stepText step ++ tailText steps

def root : String := "."

/-- The text of an address; the root is one dot. -/
def text : Address → String
  | [] => root
  | step :: steps => stepText step ++ tailText steps

/-- The text of an address below a base. The base and the address are joined as texts: the text
of the root is left out on either side, and no dot stands before a bracket. -/
def under (base : String) (address : Address) : String :=
  let inner := address.text
  if inner = root then base
  else if base = root then inner
  else if inner.toList.head? = some '[' then base ++ inner
  else base ++ "." ++ inner

end Address
end Conformance
