import Conformance.Check
import Conformance.Shape.Codec

/-!
# Validation

The entry points. `validate` is called with what the build step supplies: the
text of a type description and the version of the schema it was made under. The
version is looked at before the text, and the value only after both.
-/
namespace Conformance

def Refusal.asFault (source : List Char) (r : Refusal) : Fault :=
  .malformedType (Address.text r.address) (r.message source)

def Rejection.asFault (base : String) (r : Rejection) : Fault :=
  .malformedType (Address.under base r.address) r.complaint.message

def Codec.read {α : Type} (codec : Codec α) (source : String) : Except Fault α :=
  (codec.ofText source).mapError (Refusal.asFault source.toList)

def Codec.readAt {α : Type} (codec : Codec α) (base : String) (j : Json) : Except Fault α :=
  (codec.tree j).mapError (Rejection.asFault base)

def Codec.write {α : Type} (codec : Codec α) (a : α) : String := (codec.json a).compact

namespace Shape

def decodeAt (base : String) (j : Json) : Except Fault Shape :=
  (ofJson j).mapError (Rejection.asFault base)

def decode (j : Json) : Except Fault Shape := decodeAt Address.root j

def decodeText (source : String) : Except Fault Shape :=
  match Codec.document.read source with
  | .error f => .error f
  | .ok j => decode j

def wireText (t : Shape) : Except Fault String :=
  (t.encode.map Json.compact).mapError (Rejection.asFault Address.root)

end Shape

def Value.ofText (source : String) : Except Fault Value :=
  match Json.ofText source with
  | .error r => .error (.malformedValue (r.message source.toList))
  | .ok j => .ok (ofJson j)

def schemaVersion : UInt32 := 1

/-- Refuses every version but the supported one, and names the side that is out of date. -/
def checkVersionAgainst (version supported : UInt32) : Except Fault Unit :=
  if version = supported then .ok ()
  else .error (.versionMismatch version supported
    (if supported < version then .validator else .extractor))

def checkVersion (version : UInt32) : Except Fault Unit :=
  checkVersionAgainst version schemaVersion

def validate (v : Value) (source : Option String) (version : Option UInt32) :
    Except Fault Value :=
  match source, version with
  | some source, some version =>
    match checkVersion version with
    | .error f => .error f
    | .ok () =>
      match Shape.decodeText source with
      | .error f => .error f
      | .ok t => t.accept v
  | _, _ => .error .configuration

end Conformance
