/-!
# Paths

A path is a text whose names are separated by slashes. `names` keeps the empty
names that repeated slashes and a slash at the end give; `Path.parts` are the
names that matter: empty names are left out, and dots too unless they stand at
the front of a relative path.
-/
namespace Conformance.Path

def splitSlash : List Char → List (List Char)
  | [] => [[]]
  | c :: cs =>
    if c = '/' then [] :: splitSlash cs
    else
      match splitSlash cs with
      | [] => [[c]]
      | p :: ps => (c :: p) :: ps

def names (path : String) : List String := (splitSlash path.toList).map String.ofList

def isAbsolute (path : String) : Bool := path.toList.head? == some '/'

def endsWithSlash (path : String) : Bool := path.toList.getLast? == some '/'

def counts (name : String) : Bool := name != "" && name != "."

def parts (path : String) : List String :=
  match names path with
  | "." :: ns => "." :: ns.filter counts
  | ns => ns.filter counts

def join (path name : String) : String :=
  if path = "" || endsWithSlash path then path ++ name else path ++ "/" ++ name

def isDot (path : String) : Bool := parts path == ["."]

def hasExtension (extension name : String) : Bool :=
  let tail := '.' :: extension.toList
  tail.isSuffixOf name.toList && tail.length < name.toList.length

end Conformance.Path
