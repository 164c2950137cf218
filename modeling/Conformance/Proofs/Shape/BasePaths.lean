import Conformance.Proofs.Json.AddressTexts
import Conformance.Proofs.Shape.FirstViolation

/-!
# Decoding below a base path

A document may be a part of a larger one. Then its decoder can be told the path
at which it stands, and hand a longer path, as a text, to the decoder of each
part: `Shape.ofJsonAt` reads a shape in this way. It gives the same as reading
with addresses and joining the address to the base at the end. The main statement
is that the base does not matter beyond this: the same shape is read, or the
document is refused with the same message, and at the same path put behind the
base.
-/
namespace Conformance.Shape

section
variable {α : Type}

def childPath (path key : String) : String :=
  if path = Address.root then key else path ++ "." ++ key

def itemPath (path : String) (i : Nat) : String := path ++ Address.stepText (.index i)

def refuse (path : String) (c : Complaint) : Except Fault α :=
  .error (.malformedType path c.message)

/-- Reads the member under a key at its own path. A missing member is blamed on the object. -/
def memberAt (read : String → Json → Except Fault α) (path : String) (members : Entries Json)
    (key : String) : Except Fault α :=
  match members.get? key with
  | none => refuse path (.missingField key)
  | some j => read (childPath path key) j

def leafAt (read : Json → Except Rejection α) (path : String) (j : Json) : Except Fault α :=
  (read j).mapError (Rejection.asFault path)

def ofFieldsAt (path : String) (fields : List (Field Shape)) : Except Fault Shape :=
  match repeatedKey? [] 0 fields with
  | some (i, key) => refuse (itemPath (childPath path "fields") i ++ ".key") (.duplicateKey key)
  | none => .ok (.record fields)

end

mutual
/-- Reads the shape that stands at `path`, and each part of it at a path of its own. -/
def ofJsonAt (path : String) : Json → Except Fault Shape
  | .object members =>
    match memberAt (leafAt Tag.ofJson) path members "tag" with
    | .error f => .error f
    | .ok .record => fieldsUnderAt path "fields" members >>= ofFieldsAt path
    | .ok .tuple => (shapesUnderAt path "elementTypes" members).map tuple
    | .ok .array => (shapeUnderAt path "elementType" members).map array
    | .ok .union => (shapesUnderAt path "types" members).map union
    | .ok .primitive =>
      (memberAt (leafAt (scalar Primitive.ofJson)) path members "type").map primitive
    | .ok .literal => (memberAt (leafAt (scalar Literal.ofJson)) path members "value").map literal
    | .ok .other => (memberAt (leafAt Wildcard.ofJson) path members "type").map other
  | j => refuse path (.wrongType (.ofJsonAsFloat j) "a tagged type object")

def shapeUnderAt (path key : String) : List (String × Json) → Except Fault Shape
  | [] => refuse path (.missingField key)
  | (k, j) :: members =>
    if k = key then ofJsonAt (childPath path key) j else shapeUnderAt path key members

def shapesUnderAt (path key : String) : List (String × Json) → Except Fault (List Shape)
  | [] => refuse path (.missingField key)
  | (k, .array items) :: members =>
    if k = key then shapesAt (childPath path key) 0 items else shapesUnderAt path key members
  | (k, j) :: members =>
    if k = key then refuse (childPath path key) (.wrongType (.ofJsonAsFloat j) "an array")
    else shapesUnderAt path key members

def shapesAt (path : String) (i : Nat) : List Json → Except Fault (List Shape)
  | [] => .ok []
  | j :: items =>
    match ofJsonAt (itemPath path i) j with
    | .error f => .error f
    | .ok t => (shapesAt path (i + 1) items).map (t :: ·)

def fieldsUnderAt (path key : String) :
    List (String × Json) → Except Fault (List (Field Shape))
  | [] => refuse path (.missingField key)
  | (k, .array items) :: members =>
    if k = key then fieldsAt (childPath path key) 0 items else fieldsUnderAt path key members
  | (k, j) :: members =>
    if k = key then refuse (childPath path key) (.wrongType (.ofJsonAsFloat j) "an array")
    else fieldsUnderAt path key members

def fieldsAt (path : String) (i : Nat) : List Json → Except Fault (List (Field Shape))
  | [] => .ok []
  | j :: items =>
    match fieldOfAt (itemPath path i) j with
    | .error e => .error e
    | .ok f => (fieldsAt path (i + 1) items).map (f :: ·)

def fieldOfAt (path : String) : Json → Except Fault (Field Shape)
  | .object members =>
    match memberAt (leafAt (scalar Json.asString)) path members "key" with
    | .error f => .error f
    | .ok key =>
      match shapeUnderAt path "value" members with
      | .error f => .error f
      | .ok value =>
        (memberAt (leafAt (scalar Json.asBoolean)) path members "isOptional").map
          (⟨key, value, ·⟩)
  | j => refuse path (.wrongType (.ofJsonAsFloat j) "a tagged type object")
end

section
variable {α : Type} {path key : String} {a : Address} {r : Rejection}

theorem childPath_ne_root (hk : Address.PlainKey key) : childPath path key ≠ Address.root := by
  rw [childPath]
  split_ifs with hp
  · exact Address.text_ne_root_of_head? hk.2.1
  · intro h
    have hl := congrArg String.length h
    have hn : key.length ≠ 0 := by simpa using hk.1
    simp only [String.length_append, Address.root] at hl
    have hdot : ".".length = 1 := rfl
    omega

theorem itemPath_ne_root (path : String) (i : Nat) : itemPath path i ≠ Address.root := by
  intro h
  have hl := congrArg String.length h
  have hbracket : "[".length = 1 ∧ "]".length = 1 ∧ ".".length = 1 := ⟨rfl, rfl, rfl⟩
  simp only [itemPath, Address.stepText, String.length_append, Address.root] at hl
  omega

theorem under_childPath (hk : Address.PlainKey key) (ha : a.Legible) :
    Address.under (childPath path key) a = Address.under path (.key key :: a) := by
  rw [Address.under_eq_append_tailText (childPath_ne_root hk) ha, childPath]
  split_ifs with hp
  · rw [hp, under_root, Address.text, Address.stepText]
  · rw [Address.under_eq_append_tailText hp (Address.legible_key hk a), Address.tailText_key]
    simp only [String.append_assoc]

theorem under_itemPath (hp : path ≠ Address.root) (ha : a.Legible) (i : Nat) :
    Address.under (itemPath path i) a = Address.under path (.index i :: a) := by
  rw [Address.under_eq_append_tailText (itemPath_ne_root path i) ha, Address.under_index hp,
    itemPath, Address.text, String.append_assoc]

theorem asFault_childPath (hk : Address.PlainKey key) (hr : r.address.Legible) :
    r.asFault (childPath path key) = (r.below (.key key)).asFault path :=
  congrArg (Fault.malformedType · _) (under_childPath hk hr)

theorem asFault_itemPath (hp : path ≠ Address.root) (hr : r.address.Legible) (i : Nat) :
    r.asFault (itemPath path i) = (r.below (.index i)).asFault path :=
  congrArg (Fault.malformedType · _) (under_itemPath hp hr i)

end

/-- All refusals are at addresses that can be told from the root and from indices by their texts. -/
def RefusesLegibly {α : Type} (read : Json → Except Rejection α) : Prop :=
  ∀ j r, read j = .error r → r.address.Legible

theorem plainKey_of_declaredBy {tag name : String} {q : Role}
    (h : (name, q) ∈ Role.declaredBy tag) : Address.PlainKey name := by
  unfold Role.declaredBy at h
  split at h <;> simp only [List.mem_singleton, List.not_mem_nil, Prod.mk.injEq] at h <;>
    obtain ⟨rfl, -⟩ := h <;> decide

theorem plainKey_of_declared {role q : Role} {members : Entries Json} {name : String}
    (h : (name, q) ∈ role.declared members) : Address.PlainKey name := by
  cases role with
  | shape =>
    rcases List.mem_cons.1 h with h | h
    · cases h
      decide
    · split at h
      · exact plainKey_of_declaredBy h
      · cases h
  | field =>
    simp only [Role.declared, List.mem_cons, Prod.mk.injEq, List.not_mem_nil, or_false] at h
    rcases h with ⟨rfl, -⟩ | ⟨rfl, -⟩ | ⟨rfl, -⟩ <;> decide
  | _ => cases h

theorem legible_of_firstViolation {j : Json} {role : Role} {a : Address}
    (h : j.FirstViolation role a) : a.Legible := by
  cases h with
  | notObject | missing | notArray | leaf => exact Address.legible_nil
  | @member members _ q name before after _ _ hd =>
    have hm : (name, q) ∈ role.declared members := by
      rw [hd]
      exact List.mem_append_right before List.mem_cons_self
    exact Address.legible_key (plainKey_of_declared hm) _
  | repeatedKey => exact Address.legible_key (by decide) _
  | item => exact Address.legible_index _ _
  | @content kind => exact Address.legible_key (by cases kind <;> decide) _

theorem refusesLegibly_of_role {α : Type} {read : Json → Except Rejection α} (role : Role)
    (h : ∀ j, refusedAt (read j) = role.refusal j) : RefusesLegibly read := by
  intro j r hr
  have hv : role.refusal j = some r.address := by
    rw [← h, hr]
    rfl
  exact legible_of_firstViolation (Role.refusal_eq_some_iff.1 hv)

section
variable {α : Type} {read : Json → Except Rejection α}
  {readAt : String → Json → Except Fault α} {path key : String} {members : Entries Json}

/-- At this path `readAt` gives for the document what `read` gives, with an address put behind the
path. -/
def ReadsAt (read : Json → Except Rejection α) (readAt : String → Json → Except Fault α)
    (path : String) (j : Json) : Prop :=
  readAt path j = (read j).mapError (Rejection.asFault path)

theorem memberAt_eq (hk : Address.PlainKey key) (hl : RefusesLegibly read)
    (h : ∀ j, members.get? key = some j → ReadsAt read readAt (childPath path key) j) :
    memberAt readAt path members key =
      (leaf read members key).mapError (Rejection.asFault path) := by
  rw [memberAt, leaf, member]
  cases hj : members.get? key with
  | none => rfl
  | some j =>
    dsimp only
    rw [h j hj]
    cases hr : read j with
    | ok a => rfl
    | error r => simp only [mapError_error, asFault_childPath hk (hl j r hr)]

def itemsAt (readAt : String → Json → Except Fault α) (path : String) (i : Nat) :
    List Json → Except Fault (List α)
  | [] => .ok []
  | j :: js =>
    match readAt (itemPath path i) j with
    | .error f => .error f
    | .ok a => (itemsAt readAt path (i + 1) js).map (a :: ·)

theorem itemsAt_eq (hp : path ≠ Address.root) (hl : RefusesLegibly read) (i : Nat)
    {js : List Json} (h : ∀ j ∈ js, ∀ i, ReadsAt read readAt (itemPath path i) j) :
    itemsAt readAt path i js =
      (Codec.treeOfItems read i js).mapError (Rejection.asFault path) := by
  induction js generalizing i with
  | nil => rfl
  | cons j js ih =>
    rw [List.forall_mem_cons] at h
    rw [itemsAt, Codec.treeOfItems, h.1 i]
    cases hj : read j with
    | error r => simp only [mapError_error, asFault_itemPath hp (hl j r hj)]
    | ok a =>
      simp only [mapError_ok, ih (i + 1) h.2]
      cases Codec.treeOfItems read (i + 1) js <;> rfl

def listAt (readAt : String → Json → Except Fault α) (path : String) :
    Json → Except Fault (List α)
  | .array items => itemsAt readAt path 0 items
  | j => refuse path (.wrongType (.ofJsonAsFloat j) "an array")

theorem memberAt_cons {k : String} {j : Json} :
    memberAt readAt path ((k, j) :: members) key =
      if k = key then readAt (childPath path key) j else memberAt readAt path members key := by
  by_cases h : k = key
  · simp [memberAt, Entries.get?, h]
  · simp [memberAt, Entries.get?, h]

end

section
variable {path key : String} {members : Entries Json}

theorem shapesAt_eq (path : String) (i : Nat) (items : List Json) :
    shapesAt path i items = itemsAt ofJsonAt path i items := by
  induction items generalizing i with
  | nil => rw [shapesAt, itemsAt]
  | cons j items ih =>
    rw [shapesAt, itemsAt]
    cases ofJsonAt (itemPath path i) j with
    | error f => rfl
    | ok t => simp only [ih]

theorem fieldsAt_eq (path : String) (i : Nat) (items : List Json) :
    fieldsAt path i items = itemsAt fieldOfAt path i items := by
  induction items generalizing i with
  | nil => rw [fieldsAt, itemsAt]
  | cons j items ih =>
    rw [fieldsAt, itemsAt]
    cases fieldOfAt (itemPath path i) j with
    | error f => rfl
    | ok f => simp only [ih]

theorem shapeUnderAt_eq : shapeUnderAt path key members = memberAt ofJsonAt path members key := by
  induction members with
  | nil => simp [shapeUnderAt, memberAt, Entries.get?]
  | cons m members ih => rw [shapeUnderAt, memberAt_cons, ih]

theorem shapesUnderAt_eq :
    shapesUnderAt path key members = memberAt (listAt ofJsonAt) path members key := by
  induction members with
  | nil => simp [shapesUnderAt, memberAt, Entries.get?]
  | cons m members ih =>
    obtain ⟨k, j⟩ := m
    cases j <;> simp [shapesUnderAt, memberAt_cons, ih, listAt, shapesAt_eq]

theorem fieldsUnderAt_eq :
    fieldsUnderAt path key members = memberAt (listAt fieldOfAt) path members key := by
  induction members with
  | nil => simp [fieldsUnderAt, memberAt, Entries.get?]
  | cons m members ih =>
    obtain ⟨k, j⟩ := m
    cases j <;> simp [fieldsUnderAt, memberAt_cons, ih, listAt, fieldsAt_eq]

def ofTaggedAt (path : String) (members : Entries Json) : Tag → Except Fault Shape
  | .record => memberAt (listAt fieldOfAt) path members "fields" >>= ofFieldsAt path
  | .tuple => (memberAt (listAt ofJsonAt) path members "elementTypes").map tuple
  | .array => (memberAt ofJsonAt path members "elementType").map array
  | .union => (memberAt (listAt ofJsonAt) path members "types").map union
  | .primitive => (memberAt (leafAt (scalar Primitive.ofJson)) path members "type").map primitive
  | .literal => (memberAt (leafAt (scalar Literal.ofJson)) path members "value").map literal
  | .other => (memberAt (leafAt Wildcard.ofJson) path members "type").map other

theorem ofJsonAt_object :
    ofJsonAt path (.object members) =
      memberAt (leafAt Tag.ofJson) path members "tag" >>= ofTaggedAt path members := by
  rw [ofJsonAt]
  cases memberAt (leafAt Tag.ofJson) path members "tag" with
  | error f => rfl
  | ok form =>
    simp only [shapeUnderAt_eq, shapesUnderAt_eq, fieldsUnderAt_eq]
    cases form <;> rfl

theorem fieldOfAt_object :
    fieldOfAt path (.object members) =
      memberAt (leafAt (scalar Json.asString)) path members "key" >>= fun key =>
        memberAt ofJsonAt path members "value" >>= fun value =>
          (memberAt (leafAt (scalar Json.asBoolean)) path members "isOptional").map
            (⟨key, value, ·⟩) := by
  rw [fieldOfAt, shapeUnderAt_eq]
  cases memberAt (leafAt (scalar Json.asString)) path members "key" with
  | error f => rfl
  | ok key => cases memberAt ofJsonAt path members "value" <;> rfl

end

section
variable {α β ε ε' : Type} {x : Except ε α} {g : ε → ε'}

theorem mapError_map {f : α → β} : (x.map f).mapError g = (x.mapError g).map f := by
  cases x <;> rfl

theorem mapError_bind {f : α → Except ε β} :
    (x >>= f).mapError g = x.mapError g >>= fun a => (f a).mapError g := by
  cases x <;> rfl

end

section
variable {path : String} {members : Entries Json}

theorem ofFieldsAt_eq (path : String) (fields : List (Field Shape)) :
    ofFieldsAt path fields = (ofFields fields).mapError (Rejection.asFault path) := by
  rw [ofFieldsAt, ofFields]
  cases repeatedKey? [] 0 fields with
  | none => rfl
  | some p =>
    have hk : Address.PlainKey "fields" := by decide
    have hp : Address.under path [.key "fields", .index p.1, .key "key"] =
        itemPath (childPath path "fields") p.1 ++ ".key" := by
      rw [← under_childPath hk (Address.legible_index _ _),
        Address.under_index (childPath_ne_root hk), itemPath, String.append_assoc]
      rfl
    dsimp only
    rw [← hp]
    rfl

/-- In whatever role the document is read, it is read in the same way at every path. A list has a
member's path, which is not the root. -/
structure ReadsEverywhere (j : Json) : Prop where
  shape (path : String) : ReadsAt ofJson ofJsonAt path j
  field (path : String) : ReadsAt fieldOf fieldOfAt path j
  shapes {path : String} (hp : path ≠ Address.root) :
    ReadsAt (listOf ofJson) (listAt ofJsonAt) path j
  fields {path : String} (hp : path ≠ Address.root) :
    ReadsAt (listOf fieldOf) (listAt fieldOfAt) path j

theorem memberAt_leafAt {α : Type} {read : Json → Except Rejection α} (role : Role)
    (hr : ∀ j, refusedAt (read j) = role.refusal j) (key : String) (hk : Address.PlainKey key) :
    memberAt (leafAt read) path members key =
      (leaf read members key).mapError (Rejection.asFault path) :=
  memberAt_eq hk (refusesLegibly_of_role role hr) fun _ _ => rfl

section
variable (h : ∀ key j, members.get? key = some j → ReadsEverywhere j) (key : String)
  (hk : Address.PlainKey key)
include h hk

theorem memberAt_shape :
    memberAt ofJsonAt path members key =
      (leaf ofJson members key).mapError (Rejection.asFault path) :=
  memberAt_eq hk (refusesLegibly_of_role .shape fun _ => rfl) fun j hj => (h key j hj).shape _

theorem memberAt_shapes :
    memberAt (listAt ofJsonAt) path members key =
      (leaf (listOf ofJson) members key).mapError (Rejection.asFault path) :=
  memberAt_eq hk (refusesLegibly_of_role .shapes fun _ => rfl)
    fun j hj => (h key j hj).shapes (childPath_ne_root hk)

theorem memberAt_fields :
    memberAt (listAt fieldOfAt) path members key =
      (leaf (listOf fieldOf) members key).mapError (Rejection.asFault path) :=
  memberAt_eq hk (refusesLegibly_of_role .fields fun _ => rfl)
    fun j hj => (h key j hj).fields (childPath_ne_root hk)

end

theorem ofTaggedAt_eq (h : ∀ key j, members.get? key = some j → ReadsEverywhere j) (form : Tag) :
    ofTaggedAt path members form =
      (ofTagged members form).mapError (Rejection.asFault path) := by
  cases form with
  | record =>
    rw [ofTaggedAt, ofTagged, mapError_bind, memberAt_fields h "fields" (by decide)]
    simp only [← ofFieldsAt_eq]
  | tuple =>
    rw [ofTaggedAt, ofTagged, mapError_map, memberAt_shapes h "elementTypes" (by decide)]
  | array => rw [ofTaggedAt, ofTagged, mapError_map, memberAt_shape h "elementType" (by decide)]
  | union => rw [ofTaggedAt, ofTagged, mapError_map, memberAt_shapes h "types" (by decide)]
  | primitive =>
    rw [ofTaggedAt, ofTagged, mapError_map,
      memberAt_leafAt .primitive (fun _ => rfl) "type" (by decide)]
  | literal =>
    rw [ofTaggedAt, ofTagged, mapError_map,
      memberAt_leafAt .literal (fun _ => rfl) "value" (by decide)]
  | other =>
    rw [ofTaggedAt, ofTagged, mapError_map,
      memberAt_leafAt .wildcard (fun _ => rfl) "type" (by decide)]

theorem readsEverywhere_object
    (h : ∀ key j, members.get? key = some j → ReadsEverywhere j) :
    ReadsEverywhere (.object members) where
  shape path := by
    rw [ReadsAt, ofJsonAt_object, ofJson_object, mapError_bind,
      memberAt_leafAt .tag (fun _ => rfl) "tag" (by decide)]
    simp only [← ofTaggedAt_eq h]
  field path := by
    rw [ReadsAt, fieldOfAt_object, fieldOf_object,
      memberAt_leafAt .key (fun _ => rfl) "key" (by decide),
      memberAt_shape h "value" (by decide),
      memberAt_leafAt .mark (fun _ => rfl) "isOptional" (by decide)]
    simp only [mapError_bind, mapError_map]
  shapes _ := rfl
  fields _ := rfl

theorem readsEverywhere (j : Json) : ReadsEverywhere j := by
  induction j with
  | object members ih =>
    exact readsEverywhere_object fun key j hj => ih (key, j) (Entries.mem_of_get? hj)
  | array items ih =>
    refine ⟨fun _ => rfl, fun _ => rfl, fun hp => ?_, fun hp => ?_⟩
    · exact itemsAt_eq hp (refusesLegibly_of_role .shape fun _ => rfl) 0
        fun j hj _ => (ih j hj).shape _
    · exact itemsAt_eq hp (refusesLegibly_of_role .field fun _ => rfl) 0
        fun j hj _ => (ih j hj).field _
  | _ => exact ⟨fun _ => rfl, fun _ => rfl, fun _ => rfl, fun _ => rfl⟩

/-- Handing paths down gives what joining addresses at the end gives. -/
theorem ofJsonAt_eq_decodeAt (path : String) (j : Json) : ofJsonAt path j = decodeAt path j :=
  (readsEverywhere j).shape path

theorem ofJsonAt_of_firstViolation {j : Json} {a : Address} (h : j.FirstViolation .shape a) :
    ∃ message, ofJsonAt Address.root j = .error (.malformedType (Address.text a) message) := by
  rw [ofJsonAt_eq_decodeAt]
  exact decode_of_refusedAt (Role.refusal_eq_some_iff.2 h)

end

theorem not_index_of_firstViolation {j : Json} {role : Role} {a : Address}
    (h : j.FirstViolation role a) (hr : role.item? = none) (i : Nat) (rest : Address) :
    a ≠ .index i :: rest := by
  cases h with
  | item hq =>
    rw [hr] at hq
    cases hq
  | _ => simp

/-- Reading at a base other than the root gives the shape that the document decodes to; or the
fault that it is refused with, at the same path behind the base. -/
theorem reading_below_base (base : String) (j : Json) (hb : base ≠ Address.root) :
    ofJsonAt Address.root j = decode j ∧
      ((∃ t, ofJsonAt Address.root j = .ok t ∧ ofJsonAt base j = .ok t) ∨
        ∃ path message,
          ofJsonAt Address.root j = .error (.malformedType path message) ∧
          ofJsonAt base j = .error (.malformedType
            (if path = Address.root then base else base ++ "." ++ path) message)) := by
  refine ⟨ofJsonAt_eq_decodeAt _ _, ?_⟩
  simp only [ofJsonAt_eq_decodeAt, decodeAt]
  cases hj : ofJson j with
  | ok t => exact .inl ⟨t, rfl, rfl⟩
  | error r =>
    have hv : j.FirstViolation .shape r.address := by
      rw [← Role.refusal_eq_some_iff, Role.refusal, hj]
      rfl
    have hpath := Address.under_eq_ite hb (legible_of_firstViolation hv)
      (not_index_of_firstViolation hv rfl)
    refine .inr ⟨Address.text r.address, r.complaint.message, ?_, ?_⟩
    · rw [mapError_error, Rejection.asFault, under_root]
    · rw [mapError_error, Rejection.asFault, hpath]

def wrongPair : Json :=
  .object [("tag", .string "tuple"), ("elementTypes", .array [
    .object [("tag", .string "primitive"), ("type", .null)],
    .object [("tag", .string "other"), ("type", .object [("any", .boolean true)])]])]

theorem reading_below_base_wrongPair :
    "fields[0].value" ≠ Address.root ∧
      ofJsonAt Address.root wrongPair =
        .error (.malformedType "elementTypes[1].type.any"
          "invalid type: boolean `true`, expected unit") ∧
      ofJsonAt "fields[0].value" wrongPair =
        .error (.malformedType "fields[0].value.elementTypes[1].type.any"
          "invalid type: boolean `true`, expected unit") := by
  have hb : "fields[0].value" ≠ Address.root := by decide
  have hroot : ofJsonAt Address.root wrongPair =
      .error (.malformedType "elementTypes[1].type.any"
        "invalid type: boolean `true`, expected unit") := rfl
  refine ⟨hb, hroot, ?_⟩
  obtain ⟨-, ⟨t, ht, -⟩ | ⟨path, message, hfault, hbase⟩⟩ :=
    reading_below_base "fields[0].value" wrongPair hb
  · cases hroot.symm.trans ht
  · cases hroot.symm.trans hfault
    exact hbase

end Conformance.Shape
