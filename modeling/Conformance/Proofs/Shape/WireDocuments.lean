import Conformance.Proofs.Double.WholeNumbers
import Conformance.Proofs.RelatedLists
import Conformance.Proofs.Shape.Decoding
import Conformance.Validation

/-!
# Wire documents

`Json.Describes j t` says that the document `j` is a wire document of the shape
`t`: under which keys it has members, and what these are. A document may have
more members than are named here. The main statement is that a document decodes
to a shape exactly when it is a wire document of it. So what the reader takes for
a shape does not depend on the order in which it looks at a document, and no
document describes two shapes.
-/
namespace Conformance

inductive Json.SpellsPrimitive : Json → Primitive → Prop
  | null : SpellsPrimitive .null .null
  | keyword (kind : Primitive) (h : kind ≠ .null) : SpellsPrimitive (.string kind.keyword) kind

inductive Json.SpellsLiteral : Json → Literal → Prop
  | boolean (b : Bool) : SpellsLiteral (.boolean b) (.boolean b)
  | number (n : Json.Number) : SpellsLiteral (.number n) (.number n.toDouble)
  | string (s : String) : SpellsLiteral (.string s) (.string s)

/-- The object form has the name as its only key. -/
inductive Json.SpellsWildcard : Json → Wildcard → Prop
  | name (kind : Wildcard) : SpellsWildcard (.string kind.keyword) kind
  | object (kind : Wildcard) : SpellsWildcard (.object [(kind.keyword, .null)]) kind

mutual
inductive Json.Describes : Json → Shape → Prop
  | record {members : Entries Json} {items : List Json} {fields : List (Field Shape)}
      (tag : members.get? "tag" = some (.string "record"))
      (list : members.get? "fields" = some (.array items))
      (each : List.Forall₂ Json.DescribesField items fields)
      (distinct : (fields.map Field.key).Nodup) :
      Json.Describes (.object members) (.record fields)
  | tuple {members : Entries Json} {items : List Json} {elements : List Shape}
      (tag : members.get? "tag" = some (.string "tuple"))
      (list : members.get? "elementTypes" = some (.array items))
      (each : List.Forall₂ Json.Describes items elements) :
      Json.Describes (.object members) (.tuple elements)
  | array {members : Entries Json} {j : Json} {element : Shape}
      (tag : members.get? "tag" = some (.string "array"))
      (member : members.get? "elementType" = some j) (h : Json.Describes j element) :
      Json.Describes (.object members) (.array element)
  | union {members : Entries Json} {items : List Json} {types : List Shape}
      (tag : members.get? "tag" = some (.string "union"))
      (list : members.get? "types" = some (.array items))
      (each : List.Forall₂ Json.Describes items types) :
      Json.Describes (.object members) (.union types)
  | primitive {members : Entries Json} {j : Json} {kind : Primitive}
      (tag : members.get? "tag" = some (.string "primitive"))
      (member : members.get? "type" = some j) (h : j.SpellsPrimitive kind) :
      Json.Describes (.object members) (.primitive kind)
  | literal {members : Entries Json} {j : Json} {value : Literal}
      (tag : members.get? "tag" = some (.string "literal"))
      (member : members.get? "value" = some j) (h : j.SpellsLiteral value) :
      Json.Describes (.object members) (.literal value)
  | other {members : Entries Json} {j : Json} {kind : Wildcard}
      (tag : members.get? "tag" = some (.string "other"))
      (member : members.get? "type" = some j) (h : j.SpellsWildcard kind) :
      Json.Describes (.object members) (.other kind)
inductive Json.DescribesField : Json → Field Shape → Prop
  | mk {members : Entries Json} {key : String} {j : Json} {value : Shape} {optional : Bool}
      (hk : members.get? "key" = some (.string key))
      (hv : members.get? "value" = some j) (h : Json.Describes j value)
      (ho : members.get? "isOptional" = some (.boolean optional)) :
      Json.DescribesField (.object members) ⟨key, value, optional⟩
end

theorem Primitive.ofJson_eq_ok_iff {j : Json} {kind : Primitive} :
    ofJson j = .ok kind ↔ j.SpellsPrimitive kind := by
  constructor
  · intro h
    unfold ofJson at h
    split at h <;> cases h
    · exact .null
    · exact .keyword undefined (by decide)
    · exact .keyword string (by decide)
    · exact .keyword boolean (by decide)
    · exact .keyword number (by decide)
    · exact .keyword bigint (by decide)
    · exact .keyword symbol (by decide)
  · intro h
    cases h with
    | null => rfl
    | keyword _ h =>
      cases kind
      · exact absurd rfl h
      all_goals rfl

theorem Literal.ofJson_eq_ok_iff {j : Json} {value : Literal} :
    ofJson j = .ok value ↔ j.SpellsLiteral value := by
  constructor
  · intro h
    cases j <;> cases h
    · exact .boolean _
    · exact .number _
    · exact .string _
  · intro h
    cases h <;> rfl

theorem Wildcard.ofName_eq_ok_iff {name : String} {kind : Wildcard} :
    ofName name = .ok kind ↔ name = kind.keyword := by
  constructor
  · intro h
    unfold ofName at h
    split at h <;> cases h <;> rfl
  · intro h
    subst h
    cases kind <;> rfl

theorem Wildcard.ofJson_eq_ok_iff {j : Json} {kind : Wildcard} :
    ofJson j = .ok kind ↔ j.SpellsWildcard kind := by
  constructor
  · intro h
    unfold ofJson at h
    split at h
    · split at h
      · rename_i hn
        cases h
        exact ofName_eq_ok_iff.1 hn ▸ .name kind
      · cases h
    · split at h
      · rename_i hn
        cases h
        exact ofName_eq_ok_iff.1 hn ▸ .object kind
      all_goals cases h
    all_goals cases h
  · intro h
    cases h with
    | name => cases kind <;> rfl
    | object => cases kind <;> rfl

theorem Json.asString_eq_ok_iff {j : Json} {s : String} : j.asString = .ok s ↔ j = .string s := by
  cases j <;> simp [asString]

theorem Json.asBoolean_eq_ok_iff {j : Json} {b : Bool} :
    j.asBoolean = .ok b ↔ j = .boolean b := by
  cases j <;> simp [asBoolean]

namespace Shape

section
variable {α : Type} {read : Json → Except Rejection α} {members : Entries Json} {key : String}

def listOf (read : Json → Except Rejection α) : Json → Except Rejection (List α)
  | .array items => Codec.treeOfItems read 0 items
  | j => .error ⟨[], .wrongType (.ofJsonAsFloat j) "an array"⟩

theorem treeOfItems_eq_ok_iff {i : Nat} {js : List Json} {as : List α} :
    Codec.treeOfItems read i js = .ok as ↔ List.Forall₂ (fun j a => read j = .ok a) js as := by
  induction js generalizing i as with
  | nil => simp [Codec.treeOfItems, eq_comm]
  | cons j js ih =>
    rw [Codec.treeOfItems, List.forall₂_cons_left_iff]
    cases read j with
    | error r => simp
    | ok a => simp [map_eq_ok, ih, eq_comm (a := as)]

theorem treeOfItems_eq_error_iff {i : Nat} {js : List Json} {r : Rejection} :
    Codec.treeOfItems read i js = .error r ↔
      ∃ before j after e, js = before ++ j :: after ∧ (∀ k ∈ before, ∃ a, read k = .ok a) ∧
        read j = .error e ∧ r = e.below (.index (i + before.length)) := by
  induction js generalizing i with
  | nil => simp [Codec.treeOfItems]
  | cons j js ih =>
    rw [Codec.treeOfItems]
    cases hj : read j with
    | error e =>
      constructor
      · intro h
        cases h
        exact ⟨[], j, js, e, rfl, List.forall_mem_nil _, hj, rfl⟩
      · intro h
        obtain ⟨_ | ⟨w, before⟩, u, after, e', hjs, met, hu, rfl⟩ := h
        · cases hjs
          cases hj.symm.trans hu
          rfl
        · cases hjs
          obtain ⟨a, ha⟩ := met j List.mem_cons_self
          cases hj.symm.trans ha
    | ok a =>
      dsimp only
      rw [map_eq_error, ih]
      constructor
      · intro h
        obtain ⟨before, u, after, e, rfl, met, hu, rfl⟩ := h
        refine ⟨j :: before, u, after, e, rfl, List.forall_mem_cons.2 ⟨⟨a, hj⟩, met⟩, hu, ?_⟩
        rw [List.length_cons, Nat.add_assoc, Nat.add_comm 1]
      · intro h
        obtain ⟨_ | ⟨w, before⟩, u, after, e, hjs, met, hu, rfl⟩ := h
        · cases hjs
          cases hj.symm.trans hu
        · cases hjs
          refine ⟨before, u, after, e, rfl, fun v hv => met v (List.mem_cons_of_mem _ hv), hu, ?_⟩
          rw [List.length_cons, Nat.add_assoc, Nat.add_comm 1]

theorem listOf_eq_ok_iff {j : Json} {as : List α} :
    listOf read j = .ok as ↔
      ∃ items, j = .array items ∧ List.Forall₂ (fun j a => read j = .ok a) items as := by
  cases j <;> simp [listOf, treeOfItems_eq_ok_iff]

theorem leaf_eq_ok_iff {a : α} :
    leaf read members key = .ok a ↔ ∃ j, members.get? key = some j ∧ read j = .ok a := by
  rw [leaf, member]
  cases members.get? key with
  | none => simp
  | some j => simp [mapError_eq_ok]

theorem leaf_cons {k : String} {j : Json} :
    leaf read ((k, j) :: members) key =
      if k = key then (read j).mapError (·.below (.key key)) else leaf read members key := by
  by_cases h : k = key
  · simp [leaf, member, Entries.get?, h]
  · simp [leaf, member, Entries.get?, h]

end

section
variable {members : Entries Json} {key : String} {form : Tag} {t : Shape} {j : Json}

theorem shapesOf_eq (i : Nat) (items : List Json) :
    shapesOf i items = Codec.treeOfItems ofJson i items := by
  induction items generalizing i with
  | nil => rw [shapesOf, Codec.treeOfItems]
  | cons j items ih =>
    rw [shapesOf, Codec.treeOfItems]
    cases ofJson j with
    | error r => rfl
    | ok t => simp [mapError_ok, ih]

theorem fieldsOf_eq (i : Nat) (items : List Json) :
    fieldsOf i items = Codec.treeOfItems fieldOf i items := by
  induction items generalizing i with
  | nil => rw [fieldsOf, Codec.treeOfItems]
  | cons j items ih =>
    rw [fieldsOf, Codec.treeOfItems]
    cases fieldOf j with
    | error r => rfl
    | ok f => simp [mapError_ok, ih]

theorem shapeUnder_eq : shapeUnder key members = leaf ofJson members key := by
  induction members with
  | nil => simp [shapeUnder, leaf, member, Entries.get?]
  | cons m members ih => rw [shapeUnder, leaf_cons, ih]

theorem shapesUnder_eq : shapesUnder key members = leaf (listOf ofJson) members key := by
  induction members with
  | nil => simp [shapesUnder, leaf, member, Entries.get?]
  | cons m members ih =>
    obtain ⟨k, j⟩ := m
    cases j <;> simp [shapesUnder, leaf_cons, ih, listOf, shapesOf_eq, mapError_error,
      Rejection.below]

theorem fieldsUnder_eq : fieldsUnder key members = leaf (listOf fieldOf) members key := by
  induction members with
  | nil => simp [fieldsUnder, leaf, member, Entries.get?]
  | cons m members ih =>
    obtain ⟨k, j⟩ := m
    cases j <;> simp [fieldsUnder, leaf_cons, ih, listOf, fieldsOf_eq, mapError_error,
      Rejection.below]

def Tag.name : Tag → String
  | record => "record"
  | tuple => "tuple"
  | array => "array"
  | union => "union"
  | primitive => "primitive"
  | literal => "literal"
  | other => "other"

theorem Tag.ofName_eq_ok_iff {name : String} : Tag.ofName name = .ok form ↔ name = form.name := by
  constructor
  · intro h
    unfold Tag.ofName at h
    split at h <;> cases h <;> rfl
  · intro h
    subst h
    cases form <;> rfl

def Tag.ofJson : Json → Except Rejection Tag
  | .string name => (ofName name).mapError (⟨[], ·⟩)
  | j => .error ⟨[], .wrongType (.ofJsonAsFloat j) "a tag string"⟩

theorem Tag.ofJson_eq_ok_iff : Tag.ofJson j = .ok form ↔ j = .string form.name := by
  cases j <;> simp [Tag.ofJson, mapError_eq_ok, Tag.ofName_eq_ok_iff]

theorem tagOf_eq : tagOf members = leaf Tag.ofJson members "tag" := by
  rw [tagOf, leaf]
  cases member members "tag" with
  | error r => rfl
  | ok j =>
    cases j with
    | string name =>
      simp only [Tag.ofJson]
      cases Tag.ofName name <;> rfl
    | _ => rfl

def ofTagged (members : Entries Json) : Tag → Except Rejection Shape
  | .record => leaf (listOf fieldOf) members "fields" >>= ofFields
  | .tuple => (leaf (listOf ofJson) members "elementTypes").map tuple
  | .array => (leaf ofJson members "elementType").map array
  | .union => (leaf (listOf ofJson) members "types").map union
  | .primitive => (leaf (scalar Primitive.ofJson) members "type").map primitive
  | .literal => (leaf (scalar Literal.ofJson) members "value").map literal
  | .other => (leaf Wildcard.ofJson members "type").map other

theorem ofJson_object :
    ofJson (.object members) = leaf Tag.ofJson members "tag" >>= ofTagged members := by
  rw [ofJson, tagOf_eq]
  cases leaf Tag.ofJson members "tag" with
  | error r => rfl
  | ok form =>
    simp only [shapeUnder_eq, shapesUnder_eq, fieldsUnder_eq]
    cases form <;> rfl

theorem fieldOf_object :
    fieldOf (.object members) =
      leaf (scalar Json.asString) members "key" >>= fun key =>
        leaf ofJson members "value" >>= fun value =>
          (leaf (scalar Json.asBoolean) members "isOptional").map (⟨key, value, ·⟩) := by
  rw [fieldOf, shapeUnder_eq]
  cases leaf (scalar Json.asString) members "key" with
  | error r => rfl
  | ok key => cases leaf ofJson members "value" <;> rfl

def tag : Shape → Tag
  | record _ => .record
  | tuple _ => .tuple
  | array _ => .array
  | union _ => .union
  | primitive _ => .primitive
  | literal _ => .literal
  | other _ => .other

theorem tag_of_ofTagged (h : ofTagged members form = .ok t) : form = t.tag := by
  cases form with
  | record =>
    obtain ⟨fields, -, hf⟩ := bind_eq_ok.1 h
    rw [(ofFields_eq_ok_iff.1 hf).1]
    rfl
  | _ =>
    obtain ⟨part, -, rfl⟩ := map_eq_ok.1 h
    rfl

theorem ofJson_eq_ok_iff_tagged :
    ofJson j = .ok t ↔
      ∃ members, j = .object members ∧ Entries.get? members "tag" = some (.string t.tag.name) ∧
        ofTagged members t.tag = .ok t := by
  cases j with
  | object members =>
    simp only [ofJson_object, bind_eq_ok, leaf_eq_ok_iff, Tag.ofJson_eq_ok_iff, Json.object.injEq,
      exists_eq_left', exists_eq_right]
    constructor
    · intro h
      obtain ⟨form, ht, h⟩ := h
      obtain rfl := tag_of_ofTagged h
      exact ⟨ht, h⟩
    · intro h
      exact ⟨t.tag, h⟩
  | _ => simp [ofJson]

theorem fieldOf_eq_ok_iff {f : Field Shape} :
    fieldOf j = .ok f ↔
      ∃ members v, j = .object members ∧
        Entries.get? members "key" = some (.string f.key) ∧
        Entries.get? members "value" = some v ∧ ofJson v = .ok f.value ∧
        Entries.get? members "isOptional" = some (.boolean f.optional) := by
  obtain ⟨key, value, optional⟩ := f
  cases j with
  | object members =>
    simp only [fieldOf_object, bind_eq_ok, map_eq_ok, leaf_eq_ok_iff, scalar, mapError_eq_ok,
      Json.asString_eq_ok_iff, Json.asBoolean_eq_ok_iff, exists_eq_right, Field.mk.injEq,
      Json.object.injEq, exists_and_left, exists_eq_left']
    constructor
    · intro h
      obtain ⟨k, hk, v, ⟨j, hj, hv⟩, o, ho, rfl, rfl, rfl⟩ := h
      exact ⟨hk, j, hj, hv, ho⟩
    · intro h
      obtain ⟨hk, j, hj, hv, ho⟩ := h
      exact ⟨key, hk, value, ⟨j, hj, hv⟩, optional, ho, rfl, rfl, rfl⟩
  | _ => simp [fieldOf]

theorem fieldOf_eq_ok_iff_describesField {f : Field Shape}
    (h : ∀ v, ofJson v = .ok f.value ↔ v.Describes f.value) :
    fieldOf j = .ok f ↔ j.DescribesField f := by
  rw [fieldOf_eq_ok_iff]
  simp only [h]
  constructor
  · intro h
    obtain ⟨members, v, rfl, hk, hv, hd, ho⟩ := h
    exact .mk hk hv hd ho
  · intro h
    cases h with
    | mk hk hv hd ho => exact ⟨_, _, rfl, hk, hv, hd, ho⟩

theorem ofJson_eq_ok_iff_member {α : Type} {a : α} (form : Tag) (name : String)
    (read : Json → Except Rejection α) (wrap : α → Shape)
    (hform : ∀ members, ofTagged members form = (leaf read members name).map wrap)
    (htag : (wrap a).tag = form) (hinj : Function.Injective wrap) :
    ofJson j = .ok (wrap a) ↔
      ∃ members u, j = .object members ∧ Entries.get? members "tag" = some (.string form.name) ∧
        Entries.get? members name = some u ∧ read u = .ok a := by
  simp only [ofJson_eq_ok_iff_tagged, htag, hform, map_eq_ok, leaf_eq_ok_iff, hinj.eq_iff,
    exists_eq_right, exists_and_left]

theorem ofJson_eq_ok_iff_describes : ofJson j = .ok t ↔ j.Describes t := by
  -- On the shape and not on the document, which may have members that nothing reads.
  induction t generalizing j with
  | record fields ih =>
    have hf items : List.Forall₂ (fun j f => fieldOf j = .ok f) items fields ↔
        List.Forall₂ Json.DescribesField items fields :=
      forall₂_congr_mem fun f hf j => fieldOf_eq_ok_iff_describesField fun v => @ih f hf v
    rw [ofJson_eq_ok_iff_tagged]
    simp only [tag, Tag.name, ofTagged, bind_eq_ok, leaf_eq_ok_iff, listOf_eq_ok_iff,
      ofFields_eq_ok_iff, record.injEq]
    constructor
    · intro h
      obtain ⟨members, rfl, ht, _, ⟨_, hl, items, rfl, each⟩, rfl, hn⟩ := h
      exact .record ht hl ((hf items).1 each) hn
    · intro h
      cases h with
      | record ht hl each hn =>
        exact ⟨_, rfl, ht, _, ⟨_, hl, _, rfl, (hf _).2 each⟩, rfl, hn⟩
  | tuple elements ih =>
    have he items := @forall₂_congr_mem _ _ _ _ items elements fun t ht j => @ih t ht j
    rw [ofJson_eq_ok_iff_member .tuple "elementTypes" (listOf ofJson) tuple (fun _ => rfl) rfl
      fun _ _ => tuple.inj]
    simp only [listOf_eq_ok_iff]
    constructor
    · intro h
      obtain ⟨members, _, rfl, ht, hl, items, rfl, each⟩ := h
      exact .tuple ht hl ((he items).1 each)
    · intro h
      cases h with
      | tuple ht hl each => exact ⟨_, _, rfl, ht, hl, _, rfl, (he _).2 each⟩
  | array element ih =>
    rw [ofJson_eq_ok_iff_member .array "elementType" ofJson array (fun _ => rfl) rfl
      fun _ _ => array.inj]
    constructor
    · intro h
      obtain ⟨members, v, rfl, ht, hv, hd⟩ := h
      exact .array ht hv (ih.1 hd)
    · intro h
      cases h with
      | array ht hv hd => exact ⟨_, _, rfl, ht, hv, ih.2 hd⟩
  | union members ih =>
    have he items := @forall₂_congr_mem _ _ _ _ items members fun t ht j => @ih t ht j
    rw [ofJson_eq_ok_iff_member .union "types" (listOf ofJson) union (fun _ => rfl) rfl
      fun _ _ => union.inj]
    simp only [listOf_eq_ok_iff]
    constructor
    · intro h
      obtain ⟨members, _, rfl, ht, hl, items, rfl, each⟩ := h
      exact .union ht hl ((he items).1 each)
    · intro h
      cases h with
      | union ht hl each => exact ⟨_, _, rfl, ht, hl, _, rfl, (he _).2 each⟩
  | primitive kind =>
    rw [ofJson_eq_ok_iff_member .primitive "type" (scalar Primitive.ofJson) primitive
      (fun _ => rfl) rfl fun _ _ => primitive.inj]
    simp only [scalar, mapError_eq_ok, Primitive.ofJson_eq_ok_iff]
    constructor
    · intro h
      obtain ⟨members, v, rfl, ht, hv, hs⟩ := h
      exact .primitive ht hv hs
    · intro h
      cases h with
      | primitive ht hv hs => exact ⟨_, _, rfl, ht, hv, hs⟩
  | literal value =>
    rw [ofJson_eq_ok_iff_member .literal "value" (scalar Literal.ofJson) literal
      (fun _ => rfl) rfl fun _ _ => literal.inj]
    simp only [scalar, mapError_eq_ok, Literal.ofJson_eq_ok_iff]
    constructor
    · intro h
      obtain ⟨members, v, rfl, ht, hv, hs⟩ := h
      exact .literal ht hv hs
    · intro h
      cases h with
      | literal ht hv hs => exact ⟨_, _, rfl, ht, hv, hs⟩
  | other kind =>
    rw [ofJson_eq_ok_iff_member .other "type" Wildcard.ofJson other (fun _ => rfl) rfl
      fun _ _ => other.inj]
    simp only [Wildcard.ofJson_eq_ok_iff]
    constructor
    · intro h
      obtain ⟨members, v, rfl, ht, hv, hs⟩ := h
      exact .other ht hv hs
    · intro h
      cases h with
      | other ht hv hs => exact ⟨_, _, rfl, ht, hv, hs⟩

theorem spelled_of_describes (h : j.Describes t) : t.Spelled := by
  induction t generalizing j with
  | record fields ih =>
    cases h with
    | record _ _ each distinct =>
      refine spelled_record.2 ⟨distinct, fun f hf => ?_⟩
      obtain ⟨j, hj⟩ := exists_of_forall₂ each.flip f hf
      cases hj with
      | mk _ _ h _ => exact ih _ hf h
  | tuple elements ih =>
    cases h with
    | tuple _ _ each =>
      refine spelled_tuple.2 fun t ht => ?_
      obtain ⟨j, hj⟩ := exists_of_forall₂ each.flip t ht
      exact ih t ht hj
  | array element ih =>
    cases h with
    | array _ _ h => exact spelled_array.2 (ih h)
  | union members ih =>
    cases h with
    | union _ _ each =>
      refine spelled_union.2 fun t ht => ?_
      obtain ⟨j, hj⟩ := exists_of_forall₂ each.flip t ht
      exact ih t ht hj
  | primitive kind => exact spelled_primitive kind
  | literal value =>
    cases h with
    | literal _ _ h =>
      refine spelled_literal.2 fun x hx => ?_
      cases h with
      | number n =>
        obtain ⟨y, hy⟩ := n.exists_toDouble_eq
        cases hx
        rw [hy]
        rfl
      | boolean b => cases hx
      | string s => cases hx
  | other kind => exact spelled_other kind

theorem decode_eq_ok_iff : decode j = .ok t ↔ ofJson j = .ok t := mapError_eq_ok

end

/-- A document decodes to a shape exactly when it is a wire document of it, and it is one of no
other shape. -/
theorem decode_eq_ok_iff_describes (j : Json) (t : Shape) :
    (decode j = .ok t ↔ j.Describes t) ∧ ∀ u, j.Describes t → j.Describes u → u = t := by
  refine ⟨decode_eq_ok_iff.trans ofJson_eq_ok_iff_describes, ?_⟩
  intro u ht hu
  have h : (Except.ok u : Except Rejection Shape) = .ok t :=
    (ofJson_eq_ok_iff_describes.2 hu).symm.trans (ofJson_eq_ok_iff_describes.2 ht)
  exact Except.ok.inj h

end Shape
end Conformance
