import Conformance.Codec
import Conformance.Shape.Encoding

/-!
# Codecs of shapes and their leaves

A shape embeds in other documents as its wire document. It is read as any
document and then decoded; what is wrong with it is reported as one complaint
about the whole document, whose text names the address inside it.
-/
namespace Conformance

def Rejection.asComplaint (r : Rejection) : Complaint :=
  .malformed (Address.text r.address) r.complaint.message

namespace Codec

/-- A primitive kind. A container that stands in its place is left before it is refused. -/
def primitiveReader (depth : Nat) : Reader Primitive :=
  .begin
    (fun c r =>
      match Reader.scalar? c r with
      | some (.ok (j, t)) =>
        match Primitive.ofJson j with
        | .ok kind => .ok (kind, t)
        | .error complaint => .error (.complain complaint t)
      | some (.error e) => .error e
      | none =>
        if c ≠ '[' ∧ c ≠ '{' then .error (.next .valueExpected (c :: r))
        else if depth = 0 then .error (.next .tooDeep (c :: r))
        else if c = '[' then
          .error (Reader.settle Reader.closeList
            (.hold (.wrongType .sequence Primitive.wanted) r))
        else
          .error (Reader.settle Reader.closeObject (.hold (.wrongType .map Primitive.wanted) r)))
    (by
      intro c s a r h
      split at h
      · rename_i hs
        split at h
        · cases h
          exact Reader.length_scalar?_le hs
        · cases h
      · cases h
      · split at h
        · cases h
        · split at h
          · cases h
          · split at h <;> cases h)

def primitive : Codec Primitive where
  text := primitiveReader
  tree := Shape.scalar Primitive.ofJson
  json := Primitive.document

def literal : Codec Literal where
  text depth := (Reader.document depth).judged Literal.ofJson
  tree := Shape.scalar Literal.ofJson
  json := Literal.document

def unitOfJson : Json → Except Complaint Unit
  | .null => .ok ()
  | j => .error (.wrongType (.ofJson j) "unit")

def wildcardName : Reader Wildcard where
  run s :=
    match Reader.quoted.run s with
    | .error e => .error e
    | .ok (name, r) =>
      match Wildcard.ofName name with
      | .ok kind => .ok (kind, r)
      | .error complaint => .error (.complain complaint r)
  shrinks := by
    intro s kind r h
    split at h
    · cases h
    · rename_i hr
      have := Reader.shrinks _ hr
      split at h
      · cases h
        exact this
      · cases h

/-- A wildcard as an object with its name as the only key and null under it, behind the opening
brace. -/
def wildcardEntry : Reader Wildcard where
  run s :=
    match Reader.nextKey true s with
    | .error e => .error e
    | .ok none => .error (.next .valueExpected (skipBlanks s))
    | .ok (some s) =>
      match wildcardName.run s with
      | .error e => .error e
      | .ok (kind, r) =>
        match Reader.colon r with
        | .error e => .error e
        | .ok r =>
          match (Reader.scalar "unit" unitOfJson).run r with
          | .error e => .error (e.below (.key kind.keyword))
          | .ok (_, r) =>
            match skipBlanks r with
            | '}' :: r => .ok (kind, r)
            | [] => .error (.next .endOfObject [])
            | r => .error (.after .valueExpected 0 r)
  shrinks := by
    intro s a r h
    split at h
    · cases h
    · cases h
    · rename_i h0
      have := Reader.length_nextKey_le h0
      split at h
      · cases h
      · rename_i h1
        have := Reader.shrinks _ h1
        split at h
        · cases h
        · rename_i h2
          have := Reader.length_colon_le h2
          split at h
          · cases h
          · rename_i r3 h3
            have := Reader.shrinks _ h3
            have hb := length_skipBlanks_le r3
            split at h
            · rename_i h4
              cases h
              rw [h4, List.length_cons] at hb
              omega
            · cases h
            · cases h

def wildcardReader (depth : Nat) : Reader Wildcard :=
  .begin
    (fun c r =>
      if c = '"' then wildcardName.run r
      else if c = '{' then Reader.enter (inner (fun _ => wildcardEntry) depth) c r
      else .error (.next .valueExpected (c :: r)))
    (by
      intro c s a r h
      split at h
      · exact Nat.le_of_lt (Reader.shrinks _ h)
      · split at h
        · exact Reader.length_enter_le h
        · cases h)

def wildcard : Codec Wildcard where
  text := wildcardReader
  tree := Wildcard.ofJson
  json kind := .string kind.keyword

def shape : Codec Shape where
  text depth :=
    (Reader.document depth).judged fun j => (Shape.ofJson j).mapError Rejection.asComplaint
  tree j := (Shape.ofJson j).mapError fun r => ⟨[], r.asComplaint⟩
  json := Shape.document

end Codec
end Conformance
