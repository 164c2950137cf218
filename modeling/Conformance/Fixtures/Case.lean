import Conformance.Codec.Record
import Conformance.Fixtures.Pattern
import Conformance.Validation

/-!
# Fixture cases

A case gives a type description, a value and what is expected of validating the
one against the other: that it succeeds, or that it fails with a message that
matches a pattern. Exactly one of the two must be expected.
-/
namespace Conformance

structure Case where
  name : String
  type : Json
  value : Json
  version : Option UInt32
  ok : Bool
  error : Option String

namespace Case

def codec : Codec Case :=
  RecordCodec.codec
    { title := "Case"
      blank := ⟨"", .null, .null, none, false, none⟩
      strict := true
      members :=
        [Codec.string.member "name" true fun s c => { c with name := s },
          Codec.document.member "type" true fun j c => { c with type := j },
          Codec.document.member "value" true fun j c => { c with value := j },
          (Codec.optional .u32).member "version" false fun v c => { c with version := v },
          Codec.boolean.member "ok" false fun b c => { c with ok := b },
          (Codec.optional .string).member "error" false fun e c => { c with error := e }] }
    fun c =>
      .object [("name", .string c.name), ("type", c.type), ("value", c.value),
        ("version", (Codec.optional .u32).json c.version), ("ok", .boolean c.ok),
        ("error", (Codec.optional .string).json c.error)]

inductive Expectation
  | success
  | failure (pattern : String) (test : String → Bool)

def expectation (language : PatternLanguage) (c : Case) : Except String Expectation :=
  match c.ok, c.error with
  | true, none => .ok .success
  | false, some pattern => (language pattern).map (.failure pattern)
  | _, _ => .error ("case `" ++ c.name ++ "` must set exactly one of `ok` or `error`")

def result (c : Case) : Except Fault Value :=
  validate (.ofJson c.value) (some c.type.compact) (some (c.version.getD schemaVersion))

def Expectation.complaint? (e : Expectation) (result : Except Fault Value) : Option String :=
  match e, result with
  | success, .ok _ => none
  | success, .error fault => some ("expected ok, got: " ++ fault.message)
  | failure pattern _, .ok _ => some ("expected error matching /" ++ pattern ++ "/, got ok")
  | failure pattern test, .error fault =>
    if test fault.message then none
    else some ("error `" ++ fault.message ++ "` does not match /" ++ pattern ++ "/")

end Case
end Conformance
