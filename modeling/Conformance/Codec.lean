import Conformance.Json.Reader.Document
import Conformance.Shape.Decoding

/-!
# Codecs

A codec reads values of one kind from text and from documents, and writes them
as documents. The text side is told how many containers may still be nested.
Reading from text and reading from a document accept the same values and use the
same words for what they refuse; the text side also says where. A scalar of the
wrong kind is read before it is refused, a container is refused at its bracket.
-/
namespace Conformance

structure Codec (α : Type) where
  text : Nat → Reader α
  tree : Json → Except Rejection α
  json : α → Json

namespace Reader

variable {α β : Type}

def unwanted (wanted : String) (c : Char) (r : List Char) : Refusal :=
  match scalar? c r with
  | some (.ok (j, t)) => .complain (.wrongType (.ofJson j) wanted) t
  | some (.error e) => e
  | none =>
    if c = '[' then .complain (.wrongType .sequence wanted) (c :: r)
    else if c = '{' then .complain (.wrongType .map wanted) (c :: r)
    else .next .valueExpected (c :: r)

def scalar (wanted : String) (judge : Json → Except Complaint α) : Reader α :=
  begin
    (fun c r =>
      match scalar? c r with
      | some (.ok (j, t)) =>
        match judge j with
        | .ok a => .ok (a, t)
        | .error complaint => .error (.complain complaint t)
      | some (.error e) => .error e
      | none => .error (unwanted wanted c r))
    (by
      intro c s a r h
      split at h
      · rename_i hs
        split at h
        · cases h
          exact length_scalar?_le hs
        · cases h
      · cases h
      · cases h)

def judged (reader : Reader α) (judge : α → Except Complaint β) : Reader β where
  run s :=
    match reader.run s with
    | .error e => .error e
    | .ok (a, r) =>
      match judge a with
      | .ok b => .ok (b, r)
      | .error c => .error (.hold c r)
  shrinks := by
    intro s b r h
    split at h
    · cases h
    · rename_i hr
      split at h
      · cases h
        exact reader.shrinks hr
      · cases h

def container (bracket : Char) (wanted : String) (body : Option (Reader α)) : Reader α :=
  begin
    (fun c r => if c = bracket then enter body c r else .error (unwanted wanted c r))
    (by
      intro c s a r h
      split at h
      · exact length_enter_le h
      · cases h)

def eitherContainer (wanted : String) (listBody objectBody : Option (Reader α)) : Reader α :=
  begin
    (fun c r =>
      if c = '[' then enter listBody c r
      else if c = '{' then enter objectBody c r
      else .error (unwanted wanted c r))
    (by
      intro c s a r h
      split at h
      · exact length_enter_le h
      · split at h
        · exact length_enter_le h
        · cases h)

def orNull (reader : Reader α) : Reader (Option α) :=
  begin
    (fun c r =>
      if c = 'n' then wordFor none ['u', 'l', 'l'] r
      else
        match reader.run (c :: r) with
        | .ok (a, r) => .ok (some a, r)
        | .error e => .error e)
    (by
      intro c s a r h
      split at h
      · exact length_wordFor_le h
      · split at h
        · rename_i hr
          cases h
          exact Nat.le_of_lt_succ (reader.shrinks hr)
        · cases h)

end Reader

def inner {α : Type} (f : Nat → α) : Nat → Option α
  | 0 => none
  | depth + 1 => some (f depth)

namespace Codec

variable {α : Type}

def scalar (wanted : String) (judge : Json → Except Complaint α) (json : α → Json) : Codec α where
  text _ := .scalar wanted judge
  tree j := (judge j).mapError (⟨[], ·⟩)
  json := json

def u32OfJson : Json → Except Complaint UInt32
  | .number (.integer n lower upper) =>
    if 0 ≤ n ∧ n < 0x100000000 then .ok (UInt32.ofNat n.toNat)
    else .error (.wrongValue (.ofJson (.number (.integer n lower upper))) "u32")
  | j => .error (.wrongType (.ofJson j) "u32")

def u32Json (n : UInt32) : Json :=
  .number (.integer n.toNat (by omega) (by have := n.toNat_lt; omega))

def u32 : Codec UInt32 := scalar "u32" u32OfJson u32Json

def boolean : Codec Bool := scalar "a boolean" Json.asBoolean .boolean

def string : Codec String := scalar "a string" Json.asString .string

def document : Codec Json where
  text := Reader.document
  tree := .ok
  json j := j

def treeOfItems (item : Json → Except Rejection α) (i : Nat) :
    List Json → Except Rejection (List α)
  | [] => .ok []
  | j :: js =>
    match item j with
    | .error r => .error (r.below (.index i))
    | .ok a => (treeOfItems item (i + 1) js).map (a :: ·)

def list (item : Codec α) : Codec (List α) where
  text depth := .container '[' "a sequence" (inner (fun d => .listOf (item.text d)) depth)
  tree
    | .array js => treeOfItems item.tree 0 js
    | j => .error ⟨[], .wrongType (.ofJson j) "a sequence"⟩
  json as := .array (as.map item.json)

def treeOfMembers (value : Json → Except Rejection α) :
    List (String × Json) → Except Rejection (Entries α)
  | [] => .ok []
  | (k, j) :: ms =>
    match value j with
    | .error r => .error (r.below (.key k))
    | .ok a => (treeOfMembers value ms).map ((k, a) :: ·)

def map (value : Codec α) : Codec (Entries α) where
  text depth :=
    .container '{' "a map"
      (inner
        (fun d =>
          .entries .quoted (fun es k => .ok ((value.text d).map (Entries.insert es k))) [] .ok)
        depth)
  tree
    | .object ms => treeOfMembers value.tree ms
    | j => .error ⟨[], .wrongType (.ofJson j) "a map"⟩
  json es := .object (es.map fun e => (e.1, value.json e.2))

def optional (value : Codec α) : Codec (Option α) where
  text depth := .orNull (value.text depth)
  tree
    | .null => .ok none
    | j => (value.tree j).map some
  json
    | none => .null
    | some a => value.json a

def ofText (codec : Codec α) (s : String) : Except Refusal α :=
  ((codec.text Reader.depthLimit).runToEnd s.toList)

end Codec
end Conformance
