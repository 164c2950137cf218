import Conformance.Json.Address
import Conformance.Json.Text
import Conformance.Text.Quoted

/-!
# Why a text or a document is refused

A `Flaw` is a fault in a text as JSON. A `Complaint` is about a well-formed part
of a document that is not what was wanted. A `Rejection` is a complaint about a
document at an address in it. A `Refusal` of a text has a flaw or a complaint as
its cause, an address, and a place in the text. A complaint is without a place
as long as it is `pending`; then it remembers the text that was still to be
read, and the list or object around it gives it a place when it is left.
-/
namespace Conformance

inductive Flaw
  | endOfValue
  | endOfList
  | endOfObject
  | endOfString
  | valueExpected
  | wordExpected
  | colonExpected
  | listSeparatorExpected
  | objectSeparatorExpected
  | trailingComma
  | trailingCharacters
  | keyNotString
  | controlCharacter
  | invalidEscape
  | loneSurrogate
  | surrogateCut
  | invalidNumber
  | numberOutOfRange
  | tooDeep
deriving DecidableEq

def Flaw.message : Flaw → String
  | endOfValue => "EOF while parsing a value"
  | endOfList => "EOF while parsing a list"
  | endOfObject => "EOF while parsing an object"
  | endOfString => "EOF while parsing a string"
  | valueExpected => "expected value"
  | wordExpected => "expected ident"
  | colonExpected => "expected `:`"
  | listSeparatorExpected => "expected `,` or `]`"
  | objectSeparatorExpected => "expected `,` or `\x7d`"
  | trailingComma => "trailing comma"
  | trailingCharacters => "trailing characters"
  | keyNotString => "key must be a string"
  | controlCharacter => "control character (\\u0000-\\u001F) found while parsing a string"
  | invalidEscape => "invalid escape"
  | loneSurrogate => "lone leading surrogate in hex escape"
  | surrogateCut => "unexpected end of hex escape"
  | invalidNumber => "invalid number"
  | numberOutOfRange => "number out of range"
  | tooDeep => "recursion limit exceeded"

inductive Found
  | null
  | boolean (value : Bool)
  | integer (value : Int)
  | floating (value : Double)
  | string (value : String)
  | sequence
  | map

namespace Found

def text : Found → String
  | null => "null"
  | boolean b => "boolean `" ++ (if b then "true" else "false") ++ "`"
  | integer n => "integer `" ++ String.ofList (Json.integerText n) ++ "`"
  | floating x => "floating point `" ++ String.ofList (x.text .json) ++ "`"
  | string s => "string " ++ Text.quoted s
  | sequence => "sequence"
  | map => "map"

def ofJson : Json → Found
  | .null => null
  | .boolean b => boolean b
  | .number (.integer n _ _) => integer n
  | .number (.float x) => floating (.finite x)
  | .string s => string s
  | .array _ => sequence
  | .object _ => map

/-- As `ofJson`, but a whole number counts as a float like any other. -/
def ofJsonAsFloat : Json → Found
  | .number n => floating n.toDouble
  | j => ofJson j

end Found

inductive Complaint
  | wrongType (found : Found) (wanted : String)
  | wrongValue (found : Found) (wanted : String)
  | wrongLength (length : Nat) (wanted : String)
  | unknownVariant (name : String) (known : List String)
  | unknownField (name : String) (known : List String)
  | missingField (name : String)
  | duplicateField (name : String)
  | noAlternative (type : String)
  | duplicateKey (key : String)
  | notFinite (value : Double)
  | malformed (path message : String)

namespace Complaint

def inBackticks (s : String) : String := "`" ++ s ++ "`"

def oneOf (names : List String) : String :=
  match names with
  | [a] => inBackticks a
  | [a, b] => inBackticks a ++ " or " ++ inBackticks b
  | names => "one of " ++ ", ".intercalate (names.map inBackticks)

def message : Complaint → String
  | wrongType found wanted => "invalid type: " ++ found.text ++ ", expected " ++ wanted
  | wrongValue found wanted => "invalid value: " ++ found.text ++ ", expected " ++ wanted
  | wrongLength n wanted => "invalid length " ++ toString n ++ ", expected " ++ wanted
  | unknownVariant name known => "unknown variant `" ++ name ++ "`, expected " ++ oneOf known
  | unknownField name known => "unknown field `" ++ name ++ "`, expected " ++ oneOf known
  | missingField name => "missing field `" ++ name ++ "`"
  | duplicateField name => "duplicate field `" ++ name ++ "`"
  | noAlternative type => "data did not match any variant of untagged enum " ++ type
  | duplicateKey key => "duplicate record key `" ++ key ++ "`"
  | notFinite x => "literal number " ++ x.canonicalText ++ " is not finite"
  | malformed path message =>
    "malformed type description at JSON path " ++ path ++ ": " ++ message

end Complaint

structure Rejection where
  address : Address
  complaint : Complaint

namespace Rejection

def below (step : Step) (r : Rejection) : Rejection := ⟨step :: r.address, r.complaint⟩

end Rejection

inductive Cause
  | flaw (flaw : Flaw)
  | complaint (complaint : Complaint)

def Cause.message : Cause → String
  | flaw f => f.message
  | complaint c => c.message

inductive Place
  | fixed (left : Nat)
  | pending (rest : List Char)

structure Refusal where
  address : Address
  cause : Cause
  place : Place

def byteLength (s : List Char) : Nat := s.foldr (fun c n => c.utf8Size + n) 0

def lineAndColumn (source : List Char) (offset : Nat) : Nat × Nat :=
  go 1 0 offset source
where
  go (line column offset : Nat) : List Char → Nat × Nat
    | [] => (line, column + offset)
    | c :: cs =>
      if offset < c.utf8Size then (line, column + offset)
      else if c = '\n' then go (line + 1) 0 (offset - 1) cs
      else go line (column + c.utf8Size) (offset - c.utf8Size) cs

namespace Refusal

def below (step : Step) (r : Refusal) : Refusal := { r with address := step :: r.address }

/-- A flaw seen at the next byte of the text, which is counted though it is not read. -/
def next (f : Flaw) (rest : List Char) : Refusal :=
  ⟨[], .flaw f, .fixed (byteLength rest - 1)⟩

def after (f : Flaw) (bytes : Nat) (rest : List Char) : Refusal :=
  ⟨[], .flaw f, .fixed (byteLength rest - bytes)⟩

def complain (c : Complaint) (rest : List Char) : Refusal :=
  ⟨[], .complaint c, .fixed (byteLength rest)⟩

def hold (c : Complaint) (rest : List Char) : Refusal :=
  ⟨[], .complaint c, .pending rest⟩

def message (source : List Char) (r : Refusal) : String :=
  match r.place with
  | .pending _ => r.cause.message
  | .fixed left =>
    let (line, column) := lineAndColumn source (byteLength source - left)
    r.cause.message ++ " at line " ++ toString line ++ " column " ++ toString column

end Refusal
end Conformance
