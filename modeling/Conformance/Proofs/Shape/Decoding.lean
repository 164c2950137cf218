import Conformance.Proofs.Shape.Nodes
import Conformance.Shape.Decoding
import Conformance.Shape.Encoding

/-!
# Decoding wire documents

The wire document of a shape decodes to that shape and to no other, unless a
record in it has a key twice or a number in it has no spelling; then it does not
decode. The decoder looks for members by their names, so each form of shape has
an equation that says which part of its document is read by which function.
-/
namespace Conformance.Shape

variable {t u : Shape}

def Spelled (t : Shape) : Prop :=
  t.KeysDistinct ∧ t.EveryNumber fun x => x.isFinite = true

theorem spelled_iff :
    t.Spelled ↔
      (∀ fields, record fields = t → (fields.map Field.key).Nodup) ∧
        (∀ x, literal (.number x) = t → x.isFinite = true) ∧ ∀ p ∈ t.parts, p.Spelled := by
  simp only [Spelled, keysDistinct_iff (t := t), everyNumber_iff (t := t)]
  constructor
  · intro h
    exact ⟨h.1.1, h.2.1, fun p hp => ⟨h.1.2 p hp, h.2.2 p hp⟩⟩
  · intro h
    exact ⟨⟨h.1, fun p hp => (h.2.2 p hp).1⟩, ⟨h.2.1, fun p hp => (h.2.2 p hp).2⟩⟩

theorem spelled_record {fields : List (Field Shape)} :
    (record fields).Spelled ↔
      (fields.map Field.key).Nodup ∧ ∀ f ∈ fields, f.value.Spelled := by
  rw [spelled_iff]
  simp [parts]

theorem spelled_tuple {elements : List Shape} :
    (tuple elements).Spelled ↔ ∀ t ∈ elements, t.Spelled := by
  rw [spelled_iff]
  simp [parts]

theorem spelled_array {element : Shape} : (array element).Spelled ↔ element.Spelled := by
  rw [spelled_iff]
  simp [parts]

theorem spelled_union {members : List Shape} :
    (union members).Spelled ↔ ∀ t ∈ members, t.Spelled := by
  rw [spelled_iff]
  simp [parts]

theorem spelled_primitive (kind : Primitive) : (primitive kind).Spelled := by
  rw [spelled_iff]
  simp [parts]

theorem spelled_literal {value : Literal} :
    (literal value).Spelled ↔ ∀ x, .number x = value → x.isFinite = true := by
  rw [spelled_iff]
  simp [parts]

theorem spelled_other (kind : Wildcard) : (other kind).Spelled := by
  rw [spelled_iff]
  simp [parts]

section
variable {α β ε ε' : Type}

theorem map_eq_ok {f : α → β} {x : Except ε α} {b : β} :
    x.map f = .ok b ↔ ∃ a, x = .ok a ∧ f a = b := by
  cases x <;> simp [Except.map]

theorem map_eq_error {f : α → β} {x : Except ε α} {e : ε} :
    x.map f = .error e ↔ x = .error e := by
  cases x <;> simp [Except.map]

theorem mapError_ok {f : ε → ε'} {a : α} : (Except.ok a).mapError f = .ok a := rfl

theorem mapError_error {f : ε → ε'} {e : ε} :
    (Except.error e : Except ε α).mapError f = .error (f e) := rfl

theorem mapError_eq_ok {f : ε → ε'} {x : Except ε α} {a : α} :
    x.mapError f = .ok a ↔ x = .ok a := by
  cases x <;> simp [mapError_ok, mapError_error]

theorem bind_eq_ok {f : α → Except ε β} {x : Except ε α} {b : β} :
    x >>= f = .ok b ↔ ∃ a, x = .ok a ∧ f a = .ok b := by
  cases x <;> simp [bind, Except.bind]

end

theorem ofJson_record {fields : List (Field Shape)} :
    ofJson (record fields).document =
      (fieldsOf 0 (fieldDocuments fields)).mapError (·.below (.key "fields")) >>= ofFields := by
  simp [document, tagged, ofJson, tagOf, member, Entries.get?, Tag.ofName, mapError_ok,
    fieldsUnder]

theorem ofJson_tuple {elements : List Shape} :
    ofJson (tuple elements).document =
      ((shapesOf 0 (documents elements)).mapError (·.below (.key "elementTypes"))).map tuple := by
  simp [document, tagged, ofJson, tagOf, member, Entries.get?, Tag.ofName, mapError_ok,
    shapesUnder]

theorem ofJson_array {element : Shape} :
    ofJson (array element).document =
      ((ofJson element.document).mapError (·.below (.key "elementType"))).map array := by
  simp [document, tagged, ofJson, tagOf, member, Entries.get?, Tag.ofName, mapError_ok,
    shapeUnder]

theorem ofJson_union {members : List Shape} :
    ofJson (union members).document =
      ((shapesOf 0 (documents members)).mapError (·.below (.key "types"))).map union := by
  simp [document, tagged, ofJson, tagOf, member, Entries.get?, Tag.ofName, mapError_ok,
    shapesUnder]

theorem ofJson_primitive (kind : Primitive) :
    ofJson (primitive kind).document = .ok (primitive kind) := by
  cases kind <;> rfl

theorem ofJson_other (kind : Wildcard) : ofJson (other kind).document = .ok (other kind) := by
  cases kind <;> rfl

theorem ofJson_literal_eq_ok_iff {value : Literal} :
    ofJson (literal value).document = .ok u ↔
      u = literal value ∧ (literal value).Spelled := by
  rw [spelled_literal]
  have hok : ofJson (literal value).document = .ok (literal value) →
      (ofJson (literal value).document = .ok u ↔ u = literal value) := by
    intro h
    rw [h, Except.ok.injEq, eq_comm]
  cases value with
  | boolean b => simpa using hok rfl
  | string s => simpa using hok rfl
  | number x =>
    cases x with
    | finite x => simpa [Double.isFinite] using hok rfl
    | infinite negative =>
      have h : ofJson (literal (.number (.infinite negative))).document =
          .error ⟨[.key "value"], .noAlternative "Literal"⟩ := rfl
      simp [h, Double.isFinite]
    | nan =>
      have h : ofJson (literal (.number .nan)).document =
          .error ⟨[.key "value"], .noAlternative "Literal"⟩ := rfl
      simp [h, Double.isFinite]

theorem fieldOf_document {key : String} {value : Shape} {optional : Bool} :
    fieldOf (.object [("key", .string key), ("value", document value),
      ("isOptional", .boolean optional)]) =
      ((ofJson value.document).mapError (·.below (.key "value"))).map (⟨key, ·, optional⟩) := by
  simp [fieldOf, leaf, scalar, member, Entries.get?, Json.asString, Json.asBoolean, shapeUnder,
    mapError_ok]
  cases ofJson value.document <;> rfl

theorem shapesOf_cons_eq_ok_iff {i : Nat} {j : Json} {js : List Json} {us : List Shape} :
    shapesOf i (j :: js) = .ok us ↔
      ∃ t ts, ofJson j = .ok t ∧ shapesOf (i + 1) js = .ok ts ∧ t :: ts = us := by
  rw [shapesOf]
  cases ofJson j with
  | error e => simp [mapError_error]
  | ok t => simp [mapError_ok, map_eq_ok]

theorem fieldsOf_cons_eq_ok_iff {i : Nat} {j : Json} {js : List Json} {gs : List (Field Shape)} :
    fieldsOf i (j :: js) = .ok gs ↔
      ∃ f fs, fieldOf j = .ok f ∧ fieldsOf (i + 1) js = .ok fs ∧ f :: fs = gs := by
  rw [fieldsOf]
  cases fieldOf j with
  | error e => simp [mapError_error]
  | ok f => simp [mapError_ok, map_eq_ok]

theorem shapesOf_eq_ok_iff {ts us : List Shape}
    (h : ∀ t ∈ ts, ∀ u, ofJson t.document = .ok u ↔ u = t ∧ t.Spelled) (i : Nat) :
    shapesOf i (documents ts) = .ok us ↔ us = ts ∧ ∀ t ∈ ts, t.Spelled := by
  induction ts generalizing i us with
  | nil => simp [documents, shapesOf, eq_comm]
  | cons t ts ih =>
    have ht := h t List.mem_cons_self
    have hts us : shapesOf (i + 1) (documents ts) = .ok us ↔ us = ts ∧ ∀ t ∈ ts, t.Spelled :=
      ih (fun t hm => h t (List.mem_cons_of_mem _ hm)) (i + 1)
    rw [documents, shapesOf_cons_eq_ok_iff]
    simp only [ht, hts, List.mem_cons, forall_eq_or_imp]
    constructor
    · intro h
      obtain ⟨t', ts', ⟨h1, hs⟩, ⟨h2, hall⟩, hus⟩ := h
      exact ⟨by rw [← hus, h1, h2], hs, hall⟩
    · intro h
      obtain ⟨hus, hs, hall⟩ := h
      exact ⟨t, ts, ⟨rfl, hs⟩, ⟨rfl, hall⟩, hus.symm⟩

theorem fieldsOf_eq_ok_iff {fs gs : List (Field Shape)}
    (h : ∀ f ∈ fs, ∀ u, ofJson f.value.document = .ok u ↔ u = f.value ∧ f.value.Spelled)
    (i : Nat) :
    fieldsOf i (fieldDocuments fs) = .ok gs ↔ gs = fs ∧ ∀ f ∈ fs, f.value.Spelled := by
  induction fs generalizing i gs with
  | nil => simp [fieldDocuments, fieldsOf, eq_comm]
  | cons f fs ih =>
    obtain ⟨key, value, optional⟩ := f
    have hf : ∀ u, ofJson value.document = .ok u ↔ u = value ∧ value.Spelled :=
      h ⟨key, value, optional⟩ List.mem_cons_self
    have hfs gs : fieldsOf (i + 1) (fieldDocuments fs) = .ok gs ↔
        gs = fs ∧ ∀ f ∈ fs, f.value.Spelled :=
      ih (fun f hm => h f (List.mem_cons_of_mem _ hm)) (i + 1)
    rw [fieldDocuments, fieldsOf_cons_eq_ok_iff, fieldOf_document]
    simp only [map_eq_ok, mapError_eq_ok, hf, hfs, List.mem_cons, forall_eq_or_imp]
    constructor
    · intro h
      obtain ⟨f', fs', ⟨value', ⟨h1, hs⟩, hf'⟩, ⟨h2, hall⟩, hgs⟩ := h
      exact ⟨by rw [← hgs, ← hf', h1, h2], hs, hall⟩
    · intro h
      obtain ⟨hgs, hs, hall⟩ := h
      exact ⟨_, fs, ⟨value, ⟨rfl, hs⟩, rfl⟩, ⟨rfl, hall⟩, hgs.symm⟩

theorem repeatedKey?_eq_none_iff {seen : List String} {i : Nat} {fs : List (Field Shape)} :
    repeatedKey? seen i fs = none ↔
      (fs.map Field.key).Nodup ∧ ∀ f ∈ fs, f.key ∉ seen := by
  induction fs generalizing seen i with
  | nil => simp [repeatedKey?]
  | cons f fs ih =>
    by_cases h : f.key ∈ seen
    · simp [repeatedKey?, h]
    · simp only [repeatedKey?, h, if_false, ih, List.map_cons, List.nodup_cons, List.mem_map,
        List.mem_cons, forall_eq_or_imp, not_or, not_exists, not_and, not_false_eq_true, true_and]
      constructor
      · intro h
        obtain ⟨hn, hs⟩ := h
        exact ⟨⟨fun g hg => (hs g hg).1, hn⟩, fun g hg => (hs g hg).2⟩
      · intro h
        obtain ⟨⟨hk, hn⟩, hs⟩ := h
        exact ⟨hn, fun g hg => ⟨hk g hg, hs g hg⟩⟩

theorem ofFields_eq_ok_iff {fields : List (Field Shape)} :
    ofFields fields = .ok u ↔ u = record fields ∧ (fields.map Field.key).Nodup := by
  have h := @repeatedKey?_eq_none_iff [] 0 fields
  simp only [List.not_mem_nil, not_false_eq_true, implies_true, and_true] at h
  rw [ofFields, ← h]
  cases repeatedKey? [] 0 fields with
  | none => simp [eq_comm]
  | some p => simp

theorem ofJson_document_eq_ok_iff : ofJson t.document = .ok u ↔ u = t ∧ t.Spelled := by
  induction t generalizing u with
  | record fields ih =>
    -- The fields are read before their keys are compared, so both can go wrong here.
    rw [ofJson_record, bind_eq_ok, spelled_record]
    simp only [mapError_eq_ok, fieldsOf_eq_ok_iff fun f hf u => @ih f hf u, ofFields_eq_ok_iff]
    constructor
    · intro h
      obtain ⟨fs, ⟨hfs, hall⟩, hu, hn⟩ := h
      subst hfs
      exact ⟨hu, hn, hall⟩
    · intro h
      obtain ⟨hu, hn, hall⟩ := h
      exact ⟨fields, ⟨rfl, hall⟩, hu, hn⟩
  | tuple elements ih =>
    rw [ofJson_tuple, map_eq_ok, spelled_tuple]
    simp only [mapError_eq_ok, shapesOf_eq_ok_iff fun t ht u => @ih t ht u]
    constructor
    · intro h
      obtain ⟨ts, ⟨hts, hall⟩, hu⟩ := h
      exact ⟨by rw [← hu, hts], hall⟩
    · intro h
      obtain ⟨hu, hall⟩ := h
      exact ⟨elements, ⟨rfl, hall⟩, hu.symm⟩
  | array element ih =>
    rw [ofJson_array, map_eq_ok, spelled_array]
    simp only [mapError_eq_ok, ih]
    constructor
    · intro h
      obtain ⟨t, ⟨ht, hs⟩, hu⟩ := h
      exact ⟨by rw [← hu, ht], hs⟩
    · intro h
      obtain ⟨hu, hs⟩ := h
      exact ⟨element, ⟨rfl, hs⟩, hu.symm⟩
  | union members ih =>
    rw [ofJson_union, map_eq_ok, spelled_union]
    simp only [mapError_eq_ok, shapesOf_eq_ok_iff fun t ht u => @ih t ht u]
    constructor
    · intro h
      obtain ⟨ts, ⟨hts, hall⟩, hu⟩ := h
      exact ⟨by rw [← hu, hts], hall⟩
    · intro h
      obtain ⟨hu, hall⟩ := h
      exact ⟨members, ⟨rfl, hall⟩, hu.symm⟩
  | primitive kind =>
    rw [ofJson_primitive, Except.ok.injEq, eq_comm]
    exact (and_iff_left (spelled_primitive kind)).symm
  | literal value => exact ofJson_literal_eq_ok_iff
  | other kind =>
    rw [ofJson_other, Except.ok.injEq, eq_comm]
    exact (and_iff_left (spelled_other kind)).symm

end Conformance.Shape
