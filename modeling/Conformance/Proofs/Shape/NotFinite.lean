import Conformance.Proofs.Places
import Conformance.Proofs.Shape.FirstViolation
import Conformance.Proofs.Shape.Tidy

/-!
# Numbers that have no spelling

A number literal that is not finite stops the encoder, and null in its place in
the wire document stops the decoder. `Shape.NumberAt` says at which address of
the wire document a number literal of a shape stands, and `Address.Before` which
of two addresses comes first in the text. Both stop at the first literal that is
not finite, and name the same address; only the decoder also looks at the keys
of records, so this needs them to be distinct.
-/
namespace Conformance

/-- Where two addresses part, the one on the left takes the smaller index. -/
inductive Address.Before : Address → Address → Prop
  | index {i j : Nat} {a b : Address} (h : i < j) : Before (.index i :: a) (.index j :: b)
  | step {a b : Address} (s : Step) (h : Before a b) : Before (s :: a) (s :: b)

namespace Shape

inductive NumberAt : Shape → Address → Double → Prop
  | literal (x : Double) : NumberAt (literal (.number x)) [.key "value"] x
  | array {element : Shape} {a : Address} {x : Double} (h : NumberAt element a x) :
      NumberAt (array element) (.key "elementType" :: a) x
  | tuple {elements : List Shape} {i : Nat} {t : Shape} {a : Address} {x : Double}
      (ht : elements[i]? = some t) (h : NumberAt t a x) :
      NumberAt (tuple elements) (.key "elementTypes" :: .index i :: a) x
  | union {members : List Shape} {i : Nat} {t : Shape} {a : Address} {x : Double}
      (ht : members[i]? = some t) (h : NumberAt t a x) :
      NumberAt (union members) (.key "types" :: .index i :: a) x
  | record {fields : List (Field Shape)} {i : Nat} {f : Field Shape} {a : Address} {x : Double}
      (hf : fields[i]? = some f) (h : NumberAt f.value a x) :
      NumberAt (record fields) (.key "fields" :: .index i :: .key "value" :: a) x

section
variable {t : Shape} {a b : Address} {x y : Double}

theorem mem_nodes_of_numberAt (h : t.NumberAt a x) : Shape.literal (.number x) ∈ t.nodes := by
  induction h with
  | literal x => exact mem_nodes_self _
  | array _ ih => exact mem_nodes.2 (.inr ⟨_, List.mem_singleton_self _, ih⟩)
  | tuple ht _ ih => exact mem_nodes.2 (.inr ⟨_, List.mem_of_getElem? ht, ih⟩)
  | union ht _ ih => exact mem_nodes.2 (.inr ⟨_, List.mem_of_getElem? ht, ih⟩)
  | record hf _ ih =>
    exact mem_nodes.2 (.inr ⟨_, List.mem_map_of_mem (List.mem_of_getElem? hf), ih⟩)

theorem at?_tagged (tag key : String) (hk : "tag" ≠ key) (j : Json) (a : Address) :
    (tagged tag [(key, j)]).at? (.key key :: a) = j.at? a := by
  simp only [tagged, Json.at?, Entries.get?, hk, if_true, if_false, Option.bind_some]

theorem at?_document (h : t.NumberAt a x) :
    t.document.at? a = some (Literal.number x).document := by
  induction h with
  | literal x => rw [document, at?_tagged _ _ (by decide), Json.at?]
  | array _ ih => rw [document, at?_tagged _ _ (by decide), ih]
  | tuple ht _ ih =>
    rw [document, at?_tagged _ _ (by decide), documents_eq_map, Json.at?]
    simp only [List.getElem?_map, ht, Option.map_some, Option.bind_some, ih]
  | union ht _ ih =>
    rw [document, at?_tagged _ _ (by decide), documents_eq_map, Json.at?]
    simp only [List.getElem?_map, ht, Option.map_some, Option.bind_some, ih]
  | @record _ _ f a _ hf _ ih =>
    have hv : (fieldDocument f).at? (.key "value" :: a) = f.value.document.at? a := by
      simp [fieldDocument, Json.at?, Entries.get?]
    rw [document, at?_tagged _ _ (by decide), fieldDocuments_eq_map, Json.at?]
    simp only [List.getElem?_map, hf, Option.map_some, Option.bind_some, hv, ih]

theorem finite_of_notFinite?_eq_none (h : t.notFinite? = none) (hx : t.NumberAt a x) :
    x.isFinite = true :=
  notFinite?_eq_none_iff.1 h x (mem_nodes_of_numberAt hx)

def firstIn {α : Type} (find : α → Option (Address × Double)) (i : Nat) :
    List α → Option (Address × Double)
  | [] => none
  | p :: ps =>
    match find p with
    | some found => lifted [.index i] (some found)
    | none => firstIn find (i + 1) ps

theorem notFiniteAmong?_eq (i : Nat) (ts : List Shape) :
    notFiniteAmong? i ts = firstIn notFinite? i ts := by
  induction ts generalizing i with
  | nil => rfl
  | cons t ts ih =>
    cases ht : t.notFinite? <;> simp only [notFiniteAmong?, firstIn, ht, ih]

def notFiniteValue? (f : Field Shape) : Option (Address × Double) :=
  lifted [.key "value"] f.value.notFinite?

theorem notFiniteField?_eq (i : Nat) (fs : List (Field Shape)) :
    notFiniteField? i fs = firstIn notFiniteValue? i fs := by
  induction fs generalizing i with
  | nil => rfl
  | cons f fs ih =>
    cases hf : f.value.notFinite? with
    | none => simp only [notFiniteField?, firstIn, notFiniteValue?, lifted, hf, ih]
    | some found =>
      simp only [notFiniteField?, firstIn, notFiniteValue?, lifted, hf, List.cons_append,
        List.nil_append]

theorem lifted_eq_some_iff {steps : List Step} {found : Option (Address × Double)} :
    lifted steps found = some (a, x) ↔ ∃ b, found = some (b, x) ∧ a = steps ++ b := by
  rcases found with _ | ⟨b, y⟩
  · simp [lifted]
  · simp [lifted, eq_comm, and_comm]

theorem firstIn_eq_some {α : Type} {find : α → Option (Address × Double)} {i : Nat} {ps : List α}
    (h : firstIn find i ps = some (a, x)) :
    ∃ before p after b, ps = before ++ p :: after ∧ (∀ q ∈ before, find q = none) ∧
      find p = some (b, x) ∧ a = .index (i + before.length) :: b := by
  induction ps generalizing i with
  | nil => cases h
  | cons p ps ih =>
    rw [firstIn] at h
    cases hp : find p with
    | some found =>
      rw [hp] at h
      obtain ⟨b, hb, rfl⟩ := lifted_eq_some_iff.1 h
      exact ⟨[], p, ps, b, rfl, List.forall_mem_nil _, hp.trans hb, rfl⟩
    | none =>
      rw [hp] at h
      obtain ⟨before, q, after, b, rfl, hbefore, hq, rfl⟩ := ih h
      refine ⟨p :: before, q, after, b, rfl, List.forall_mem_cons.2 ⟨hp, hbefore⟩, hq, ?_⟩
      rw [List.length_cons, Nat.add_assoc, Nat.add_comm 1]

/-- The number at an address is not finite, and no such number comes before it. The predicate `P`
says which numbers stand at which addresses. -/
structure FirstNotFinite (P : Address → Double → Prop) (a : Address) (x : Double) : Prop where
  stands : P a x
  notFinite : x.isFinite = false
  first : ∀ b y, P b y → y.isFinite = false → b = a ∨ a.Before b

def Below (step : Step) (P : Address → Double → Prop) (a : Address) (x : Double) : Prop :=
  ∃ b, a = step :: b ∧ P b x

def Among {α : Type} (P : α → Address → Double → Prop) (ps : List α) (a : Address) (x : Double) :
    Prop :=
  ∃ i p b, ps[i]? = some p ∧ a = .index i :: b ∧ P p b x

theorem FirstNotFinite.below {P : Address → Double → Prop} (h : FirstNotFinite P a x)
    (step : Step) : FirstNotFinite (Below step P) (step :: a) x := by
  refine ⟨⟨a, rfl, h.stands⟩, h.notFinite, ?_⟩
  intro b y hb hy
  obtain ⟨b, rfl, hb⟩ := hb
  rcases h.first b y hb hy with rfl | hab
  · exact .inl rfl
  · exact .inr (.step step hab)

theorem firstNotFinite_among {α : Type} {P : α → Address → Double → Prop}
    {find : α → Option (Address × Double)} {ps : List α}
    (hfirst : ∀ p ∈ ps, ∀ a x, find p = some (a, x) → FirstNotFinite (P p) a x)
    (hnone : ∀ p ∈ ps, find p = none → ∀ b y, P p b y → y.isFinite = true)
    (h : firstIn find 0 ps = some (a, x)) : FirstNotFinite (Among P ps) a x := by
  obtain ⟨before, p, after, b, hps, hbefore, hp, rfl⟩ := firstIn_eq_some h
  have hi : ps[before.length]? = some p := by
    rw [hps, List.getElem?_append_right (Nat.le_refl _), Nat.sub_self, List.getElem?_cons_zero]
  have hf := hfirst p (List.mem_of_getElem? hi) b x hp
  rw [Nat.zero_add]
  refine ⟨⟨before.length, p, b, hi, rfl, hf.stands⟩, hf.notFinite, ?_⟩
  intro c y hc hy
  obtain ⟨j, q, c, hj, rfl, hc⟩ := hc
  rcases Nat.lt_trichotomy j before.length with hlt | rfl | hlt
  · -- a part before the first one has no such number
    have hq : q ∈ before := by
      rw [hps, List.getElem?_append_left hlt] at hj
      exact List.mem_of_getElem? hj
    have hfin := hnone q (List.mem_of_getElem? hj) (hbefore q hq) c y hc
    rw [hy] at hfin
    cases hfin
  · rw [hi] at hj
    cases hj
    rcases hf.first c y hc hy with rfl | hbc
    · exact .inl rfl
    · exact .inr (.step _ hbc)
  · exact .inr (.index hlt)

theorem FirstNotFinite.congr {P Q : Address → Double → Prop} (h : FirstNotFinite P a x)
    (hPQ : ∀ b y, Q b y ↔ P b y) : FirstNotFinite Q a x := by
  refine ⟨(hPQ a x).2 h.stands, h.notFinite, ?_⟩
  intro b y hb
  exact h.first b y ((hPQ b y).1 hb)

theorem numberAt_array {element : Shape} (a : Address) (x : Double) :
    (array element).NumberAt a x ↔ Below (.key "elementType") element.NumberAt a x := by
  constructor
  · intro h
    cases h with
    | array h => exact ⟨_, rfl, h⟩
  · rintro ⟨b, rfl, h⟩
    exact .array h

theorem numberAt_tuple {elements : List Shape} (a : Address) (x : Double) :
    (tuple elements).NumberAt a x ↔
      Below (.key "elementTypes") (Among NumberAt elements) a x := by
  constructor
  · intro h
    cases h with
    | tuple ht h => exact ⟨_, rfl, _, _, _, ht, rfl, h⟩
  · rintro ⟨_, rfl, i, t, b, ht, rfl, h⟩
    exact .tuple ht h

theorem numberAt_union {members : List Shape} (a : Address) (x : Double) :
    (union members).NumberAt a x ↔ Below (.key "types") (Among NumberAt members) a x := by
  constructor
  · intro h
    cases h with
    | union ht h => exact ⟨_, rfl, _, _, _, ht, rfl, h⟩
  · rintro ⟨_, rfl, i, t, b, ht, rfl, h⟩
    exact .union ht h

theorem numberAt_record {fields : List (Field Shape)} (a : Address) (x : Double) :
    (record fields).NumberAt a x ↔
      Below (.key "fields")
        (Among (fun f => Below (.key "value") (NumberAt f.value)) fields) a x := by
  constructor
  · intro h
    cases h with
    | record hf h => exact ⟨_, rfl, _, _, _, hf, rfl, _, rfl, h⟩
  · rintro ⟨_, rfl, i, f, _, hf, rfl, b, rfl, h⟩
    exact .record hf h

theorem firstNotFinite_literal {value : Literal} (h : (literal value).notFinite? = some (a, x)) :
    FirstNotFinite (literal value).NumberAt a x := by
  rw [notFinite?, Option.map_eq_some_iff] at h
  obtain ⟨z, hz, he⟩ := h
  cases he
  have hv : value = .number x ∧ x.isFinite = false := by
    unfold Literal.notFinite? at hz
    split at hz
    · cases hz
    · rename_i y hy
      cases hz
      refine ⟨rfl, ?_⟩
      cases x with
      | finite x => exact absurd rfl (hy x)
      | _ => rfl
    · cases hz
  obtain ⟨rfl, hx⟩ := hv
  refine ⟨.literal x, hx, ?_⟩
  intro b y hb _
  cases hb
  exact .inl rfl

theorem firstNotFinite_of_notFinite? (h : t.notFinite? = some (a, x)) :
    FirstNotFinite t.NumberAt a x := by
  induction t generalizing a x with
  | record fields ih =>
    rw [notFinite?, notFiniteField?_eq] at h
    obtain ⟨b, hb, rfl⟩ := lifted_eq_some_iff.1 h
    apply FirstNotFinite.congr _ numberAt_record
    apply FirstNotFinite.below _ (.key "fields")
    refine firstNotFinite_among ?_ ?_ hb
    · intro f hf c y hc
      obtain ⟨d, hd, rfl⟩ := lifted_eq_some_iff.1 hc
      exact (ih f hf hd).below (.key "value")
    · intro f _ hn c y hc
      obtain ⟨c, rfl, hc⟩ := hc
      exact finite_of_notFinite?_eq_none (lifted_eq_none_iff.1 hn) hc
  | tuple elements ih =>
    rw [notFinite?, notFiniteAmong?_eq] at h
    obtain ⟨b, hb, rfl⟩ := lifted_eq_some_iff.1 h
    apply FirstNotFinite.congr _ numberAt_tuple
    apply FirstNotFinite.below _ (.key "elementTypes")
    exact firstNotFinite_among (fun t ht c y => ih t ht)
      (fun t _ hn c y => finite_of_notFinite?_eq_none hn) hb
  | array element ih =>
    rw [notFinite?] at h
    obtain ⟨b, hb, rfl⟩ := lifted_eq_some_iff.1 h
    apply FirstNotFinite.congr _ numberAt_array
    exact (ih hb).below (.key "elementType")
  | union members ih =>
    rw [notFinite?, notFiniteAmong?_eq] at h
    obtain ⟨b, hb, rfl⟩ := lifted_eq_some_iff.1 h
    apply FirstNotFinite.congr _ numberAt_union
    apply FirstNotFinite.below _ (.key "types")
    exact firstNotFinite_among (fun t ht c y => ih t ht)
      (fun t _ hn c y => finite_of_notFinite?_eq_none hn) hb
  | primitive kind => cases h
  | literal value => exact firstNotFinite_literal h
  | other kind => cases h

theorem refusedAt_below {α : Type} (step : Step) (y : Except Rejection α) :
    refusedAt (y.mapError (·.below step)) = (refusedAt y).map (step :: ·) := by
  cases y <;> rfl

theorem refusedAt_treeOfItems_of_firstIn {α β : Type} {read : Json → Except Rejection β}
    {find : α → Option (Address × Double)} {doc : α → Json} {ps : List α}
    (hsome : ∀ p ∈ ps, ∀ a x, find p = some (a, x) → refusedAt (read (doc p)) = some a)
    (hnone : ∀ p ∈ ps, find p = none → refusedAt (read (doc p)) = none)
    (h : firstIn find 0 ps = some (a, x)) :
    refusedAt (Codec.treeOfItems read 0 (ps.map doc)) = some a := by
  obtain ⟨before, p, after, b, rfl, hbefore, hp, rfl⟩ := firstIn_eq_some h
  rw [refusedAt_treeOfItems]
  refine ⟨before.map doc, doc p, after.map doc, b, by simp, ?_, ?_, by simp⟩
  · intro j hj
    obtain ⟨q, hq, rfl⟩ := List.mem_map.1 hj
    exact hnone q (List.mem_append_left _ hq) (hbefore q hq)
  · exact hsome p (by simp) b x hp

theorem refusedAt_document_of_notFinite?_eq_none (hk : t.KeysDistinct)
    (h : t.notFinite? = none) : refusedAt (ofJson t.document) = none := by
  rw [ofJson_document_eq_ok_iff.2 ⟨rfl, hk, notFinite?_eq_none_iff.1 h⟩]
  rfl

theorem refusedAt_fieldDocument (f : Field Shape) :
    refusedAt (fieldOf (fieldDocument f)) =
      (refusedAt (ofJson f.value.document)).map (.key "value" :: ·) := by
  rw [fieldDocument, fieldOf_document, refusedAt_map, refusedAt_below]

theorem refusedAt_documents {ts : List Shape} (hk : ∀ t ∈ ts, t.KeysDistinct)
    (ih : ∀ t ∈ ts, ∀ a x, t.notFinite? = some (a, x) → refusedAt (ofJson t.document) = some a)
    (h : notFiniteAmong? 0 ts = some (a, x)) :
    refusedAt (shapesOf 0 (documents ts)) = some a := by
  rw [notFiniteAmong?_eq] at h
  rw [shapesOf_eq, documents_eq_map]
  apply refusedAt_treeOfItems_of_firstIn ih _ h
  intro t ht hn
  exact refusedAt_document_of_notFinite?_eq_none (hk t ht) hn

theorem refusedAt_document (hk : t.KeysDistinct) (h : t.notFinite? = some (a, x)) :
    refusedAt (ofJson t.document) = some a := by
  induction t generalizing a x with
  | record fields ih =>
    have hp := (keysDistinct_iff.1 hk).2
    rw [notFinite?, notFiniteField?_eq] at h
    obtain ⟨b, hb, rfl⟩ := lifted_eq_some_iff.1 h
    have hf : refusedAt (fieldsOf 0 (fieldDocuments fields)) = some b := by
      rw [fieldsOf_eq, fieldDocuments_eq_map]
      apply refusedAt_treeOfItems_of_firstIn _ _ hb
      · intro f hf c y hc
        obtain ⟨d, hd, rfl⟩ := lifted_eq_some_iff.1 hc
        rw [refusedAt_fieldDocument, ih f hf (hp _ (List.mem_map_of_mem hf)) hd]
        rfl
      -- What comes before the number decodes: no key is repeated there either.
      · intro f hf hn
        rw [refusedAt_fieldDocument, refusedAt_document_of_notFinite?_eq_none
          (hp _ (List.mem_map_of_mem hf)) (lifted_eq_none_iff.1 hn)]
        rfl
    rw [ofJson_record, refusedAt_bind, refusedAt_below, hf]
    rfl
  | tuple elements ih =>
    have hp : ∀ t ∈ elements, t.KeysDistinct := (keysDistinct_iff.1 hk).2
    obtain ⟨b, hb, rfl⟩ := lifted_eq_some_iff.1 h
    rw [ofJson_tuple, refusedAt_map, refusedAt_below,
      refusedAt_documents hp (fun t ht c y => ih t ht (hp t ht)) hb]
    rfl
  | array element ih =>
    have hp := (keysDistinct_iff.1 hk).2 element (List.mem_singleton_self _)
    obtain ⟨b, hb, rfl⟩ := lifted_eq_some_iff.1 h
    rw [ofJson_array, refusedAt_map, refusedAt_below, ih hp hb]
    rfl
  | union members ih =>
    have hp : ∀ t ∈ members, t.KeysDistinct := (keysDistinct_iff.1 hk).2
    obtain ⟨b, hb, rfl⟩ := lifted_eq_some_iff.1 h
    rw [ofJson_union, refusedAt_map, refusedAt_below,
      refusedAt_documents hp (fun t ht c y => ih t ht (hp t ht)) hb]
    rfl
  | primitive kind => cases h
  | literal value =>
    obtain ⟨hat, hx, -⟩ := firstNotFinite_of_notFinite? h
    cases hat with
    | literal x =>
      cases x with
      | finite x => cases hx
      | infinite negative => rfl
      | nan => rfl
  | other kind => cases h

theorem wireText_eq_error_iff {f : Fault} :
    t.wireText = .error f ↔
      ∃ a x, t.notFinite? = some (a, x) ∧
        f = .malformedType (Address.text a) (Complaint.notFinite x).message := by
  rw [wireText, encode]
  rcases t.notFinite? with _ | ⟨a, x⟩
  · simp [Except.map, mapError_ok]
  · simp only [Except.map, mapError_error, Rejection.asFault, under_root, Except.error.injEq,
      Option.some.injEq, Prod.mk.injEq]
    constructor
    · intro h
      exact ⟨a, x, ⟨rfl, rfl⟩, h.symm⟩
    · rintro ⟨b, y, ⟨rfl, rfl⟩, h⟩
      exact h.symm

theorem exists_notFinite?_iff :
    (∃ a x, t.notFinite? = some (a, x)) ↔
      ∃ x, Shape.literal (.number x) ∈ t.nodes ∧ x.isFinite = false := by
  have h : (∃ a x, t.notFinite? = some (a, x)) ↔ t.notFinite? ≠ none := by
    rw [Option.ne_none_iff_exists', Prod.exists]
  rw [h, ne_eq, notFinite?_eq_none_iff, EveryNumber]
  push Not
  simp only [Bool.not_eq_true]

end

/-- A shape cannot be written exactly when a number literal in it is not finite. Then the first of
these in the order of the wire document is blamed, where the document has null; and if no record
repeats a key, decoding that document blames the same address, also where paths are handed down
(`ofJsonAt_eq_decodeAt`). -/
theorem encoding_blames_as_decoding_does (t : Shape) :
    ((∃ f, t.wireText = .error f) ↔
      ∃ x, Shape.literal (.number x) ∈ t.nodes ∧ x.isFinite = false) ∧
    ∀ f, t.wireText = .error f →
      ∃ a x, FirstNotFinite t.NumberAt a x ∧ t.document.at? a = some .null ∧
        f = .malformedType (Address.text a) (Complaint.notFinite x).message ∧
        (t.KeysDistinct →
          ∃ message, decode t.document = .error (.malformedType (Address.text a) message)) := by
  constructor
  · rw [← exists_notFinite?_iff]
    constructor
    · rintro ⟨f, hf⟩
      obtain ⟨a, x, hx, -⟩ := wireText_eq_error_iff.1 hf
      exact ⟨a, x, hx⟩
    · rintro ⟨a, x, hx⟩
      exact ⟨_, wireText_eq_error_iff.2 ⟨a, x, hx, rfl⟩⟩
  · intro f hf
    obtain ⟨a, x, hx, rfl⟩ := wireText_eq_error_iff.1 hf
    have hfirst := firstNotFinite_of_notFinite? hx
    refine ⟨a, x, hfirst, ?_, rfl, ?_⟩
    · rw [at?_document hfirst.stands]
      cases x with
      | finite x => cases hfirst.notFinite
      | _ => rfl
    · intro hk
      exact decode_of_refusedAt (refusedAt_document hk hx)

example :
    (union [tuple [.literal (.number (.finite .zero))],
      record [⟨"a", .literal (.number (.finite .zero)), false⟩,
        ⟨"b", array (.literal (.number .nan)), true⟩],
      .literal (.number (.infinite true))]).wireText =
    .error (.malformedType "types[1].fields[1].value.elementType.value"
      "literal number NaN is not finite") := rfl

end Shape
end Conformance
