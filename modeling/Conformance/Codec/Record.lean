import Conformance.Codec
import Conformance.Json.Reader.Skipped

/-!
# Codecs of records with named members

A record codec is given by the members of the record in their order. A record is
read from an object, where the members may come in any order, or from a list of
their values in that order. A member that is not required keeps its blank value
when it is absent. Unknown members are passed over, unless the record is strict.
-/
namespace Conformance

structure Member (σ : Type) where
  name : String
  required : Bool
  text : Nat → Reader (σ → σ)
  tree : Json → Except Rejection (σ → σ)

def Codec.member {α σ : Type} (codec : Codec α) (name : String) (required : Bool)
    (put : α → σ → σ) : Member σ where
  name := name
  required := required
  text depth := (codec.text depth).map put
  tree j := (codec.tree j).map put

structure RecordCodec (σ : Type) where
  title : String
  members : List (Member σ)
  blank : σ
  strict : Bool

namespace RecordCodec

variable {σ : Type} (record : RecordCodec σ)

def wanted : String := "struct " ++ record.title

def names : List String := record.members.map Member.name

abbrev Draft (σ : Type) := List String × σ

def finish (draft : Draft σ) : Except Complaint σ :=
  match record.members.find? fun m => m.required && !draft.1.contains m.name with
  | some m => .error (.missingField m.name)
  | none => .ok draft.2

def entry (depth : Nat) (draft : Draft σ) (name : String) :
    Except Rejection (Reader (Draft σ)) :=
  match record.members.find? fun m => m.name == name with
  | some m =>
    if draft.1.contains name then .error ⟨[], .duplicateField name⟩
    else .ok ((m.text depth).map fun change => (name :: draft.1, change draft.2))
  | none =>
    if record.strict then .error ⟨[.key name], .unknownField name record.names⟩
    else .ok (Reader.skipped.map fun _ => draft)

def fromEntries (depth : Nat) : Reader σ :=
  .entries .quoted (record.entry depth) ([], record.blank) record.finish

def tooShort (left : List (Member σ)) : Option Complaint :=
  match left.dropWhile fun m => !m.required with
  | [] => none
  | missing =>
    some (.wrongLength (record.members.length - missing.length)
      (record.wanted ++ " with " ++ toString record.members.length ++ " elements"))

def fromElements (depth : Nat) : Reader σ :=
  .elements
    (fun state : List (Member σ) × σ =>
      match state.1 with
      | [] => none
      | m :: left => some ((m.text depth).map fun change => (left, change state.2)))
    (record.members, record.blank)
    (fun state =>
      match record.tooShort state.1 with
      | some c => .error c
      | none => .ok state.2)

def text (depth : Nat) : Reader σ :=
  .eitherContainer record.wanted (inner record.fromElements depth)
    (inner record.fromEntries depth)

def treeOfMembers (draft : Draft σ) : List (String × Json) → Except Rejection (Draft σ)
  | [] => .ok draft
  | (k, j) :: ms =>
    match record.members.find? fun m => m.name == k with
    | some m =>
      match m.tree j with
      | .error r => .error (r.below (.key k))
      | .ok change => treeOfMembers (k :: draft.1, change draft.2) ms
    | none =>
      if record.strict then .error ⟨[.key k], .unknownField k record.names⟩
      else treeOfMembers draft ms

def treeOfItems (i : Nat) (left : List (Member σ)) (state : σ) :
    List Json → Except Rejection σ
  | [] =>
    match record.tooShort left with
    | some c => .error ⟨[], c⟩
    | none => .ok state
  | j :: js =>
    match left with
    | [] => .error ⟨[], .wrongLength (i + 1 + js.length) "fewer elements in array"⟩
    | m :: left =>
      match m.tree j with
      | .error r => .error (r.below (.index i))
      | .ok change => treeOfItems (i + 1) left (change state) js

def tree : Json → Except Rejection σ
  | .array js => record.treeOfItems 0 record.members record.blank js
  | .object ms =>
    match record.treeOfMembers ([], record.blank) ms with
    | .error r => .error r
    | .ok draft => (record.finish draft).mapError (⟨[], ·⟩)
  | j => .error ⟨[], .wrongType (.ofJson j) record.wanted⟩

def codec (json : σ → Json) : Codec σ := ⟨record.text, record.tree, json⟩

end RecordCodec
end Conformance
