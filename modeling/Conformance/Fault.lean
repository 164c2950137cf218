import Conformance.Double.Text
import Conformance.Value

/-!
# Faults

Why a value is not validated. Some faults are about the tools: the build step
was not applied, it is out of step with the validator, or what it supplied does
not decode. All others are shape faults, which are about the value. The types
that a shape fault is about are given by their canonical text.
-/
namespace Conformance

inductive Upgrade
  | validator
  | extractor
deriving DecidableEq

inductive Fault
  | configuration
  | versionMismatch (version supported : UInt32) (upgrade : Upgrade)
  | malformedType (path message : String)
  | malformedValue (message : String)
  | shapeMismatch (expected : String) (observed : Kind)
  | missingField (key : String)
  | literalMismatch (expected : String)
  | unionExhausted (union : String)
  | tupleArity (tuple : String) (expected actual : Nat)
deriving DecidableEq, Inhabited

inductive FaultKind
  | configuration
  | versionMismatch
  | malformedType
  | malformedValue
  | shapeMismatch
  | missingField
  | literalMismatch
  | unionExhausted
  | tupleArity
deriving DecidableEq

def Upgrade.message : Upgrade → String
  | validator => "Please update typegate to the latest version"
  | extractor => "Please update the build step that produces type descriptions"

namespace Fault

def kind : Fault → FaultKind
  | configuration => .configuration
  | versionMismatch _ _ _ => .versionMismatch
  | malformedType _ _ => .malformedType
  | malformedValue _ => .malformedValue
  | shapeMismatch _ _ => .shapeMismatch
  | missingField _ => .missingField
  | literalMismatch _ => .literalMismatch
  | unionExhausted _ => .unionExhausted
  | tupleArity _ _ _ => .tupleArity

/-- Whether the fault is about the value, and not about the tools. -/
def isShape (f : Fault) : Bool :=
  match f.kind with
  | .shapeMismatch | .missingField | .literalMismatch | .unionExhausted | .tupleArity => true
  | _ => false

def message : Fault → String
  | configuration =>
    "typegate requires a build step that supplies the type description and schema version"
  | versionMismatch version supported upgrade =>
    upgrade.message ++ " (type schema v" ++ toString version.toNat ++ ", supported v"
      ++ toString supported.toNat ++ ")"
  | malformedType path message =>
    "malformed type description at JSON path " ++ path ++ ": " ++ message
  | malformedValue message => "malformed JSON value: " ++ message
  | shapeMismatch expected observed =>
    "Value of type " ++ observed.keyword ++ " is not expected type " ++ expected
  | missingField key => "Value is missing key \"" ++ key ++ "\""
  | literalMismatch expected => "Value is not expected literal type " ++ expected
  | unionExhausted union => "Value is not expected union type " ++ union
  | tupleArity tuple expected actual =>
    "Tuple is not the same length as " ++ tuple ++ " (expected " ++ toString expected
      ++ ", found " ++ toString actual ++ ")"

end Fault
end Conformance
