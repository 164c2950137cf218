import Conformance.Proofs.Json.Reread
import Conformance.Proofs.Shape.Nodes
import Conformance.Shape.Encoding

/-!
# Encoding shapes

A shape is encoded exactly when its number literals are finite, and the document
that comes out has no object with a key twice, whatever the keys of the records
in the shape are: those keys are strings in it.
-/
namespace Conformance.Shape

variable {t : Shape}

theorem lifted_eq_none_iff {steps : List Step} {found : Option (Address × Double)} :
    lifted steps found = none ↔ found = none := by
  cases found <;> simp [lifted]

theorem notFiniteAmong?_eq_none_iff {i : Nat} {ts : List Shape} :
    notFiniteAmong? i ts = none ↔ ∀ t ∈ ts, t.notFinite? = none := by
  induction ts generalizing i with
  | nil => simp [notFiniteAmong?]
  | cons t ts ih =>
    rw [notFiniteAmong?]
    cases h : t.notFinite? with
    | none => simp [ih, h]
    | some found => simp [lifted, h]

theorem notFiniteField?_eq_none_iff {i : Nat} {fs : List (Field Shape)} :
    notFiniteField? i fs = none ↔ ∀ f ∈ fs, f.value.notFinite? = none := by
  induction fs generalizing i with
  | nil => simp [notFiniteField?]
  | cons f fs ih =>
    rw [notFiniteField?]
    cases h : f.value.notFinite? with
    | none => simp [ih, h]
    | some found => simp [lifted, h]

theorem literal_notFinite?_eq_none_iff {value : Literal} :
    value.notFinite? = none ↔ ∀ x, .number x = value → x.isFinite = true := by
  cases value with
  | boolean b => simp [Literal.notFinite?]
  | string s => simp [Literal.notFinite?]
  | number x => cases x <;> simp [Literal.notFinite?, Double.isFinite]

theorem notFinite?_eq_none_iff :
    t.notFinite? = none ↔ t.EveryNumber fun x => x.isFinite = true := by
  induction t with
  | record fields ih =>
    rw [notFinite?, lifted_eq_none_iff, notFiniteField?_eq_none_iff, everyNumber_iff]
    simp only [parts, List.mem_map, forall_exists_index, and_imp, forall_apply_eq_imp_iff₂,
      reduceCtorEq, false_imp_iff, implies_true, true_and]
    exact forall₂_congr ih
  | tuple elements ih =>
    rw [notFinite?, lifted_eq_none_iff, notFiniteAmong?_eq_none_iff, everyNumber_iff]
    simp only [parts, reduceCtorEq, false_imp_iff, implies_true, true_and]
    exact forall₂_congr ih
  | array element ih =>
    rw [notFinite?, lifted_eq_none_iff, ih, everyNumber_iff (t := array element)]
    simp [parts]
  | union members ih =>
    rw [notFinite?, lifted_eq_none_iff, notFiniteAmong?_eq_none_iff, everyNumber_iff]
    simp only [parts, reduceCtorEq, false_imp_iff, implies_true, true_and]
    exact forall₂_congr ih
  | primitive kind =>
    rw [notFinite?, everyNumber_iff]
    simp [parts]
  | literal value =>
    rw [notFinite?, Option.map_eq_none_iff, literal_notFinite?_eq_none_iff, everyNumber_iff]
    simp [parts]
  | other kind =>
    rw [notFinite?, everyNumber_iff]
    simp [parts]

theorem encode_eq_ok_iff {j : Json} :
    t.encode = .ok j ↔ j = t.document ∧ t.EveryNumber fun x => x.isFinite = true := by
  rw [← notFinite?_eq_none_iff, encode]
  cases t.notFinite? with
  | none => simp [eq_comm]
  | some found => simp

theorem mem_documents {ts : List Shape} {j : Json} :
    j ∈ documents ts ↔ ∃ t ∈ ts, t.document = j := by
  induction ts with
  | nil => simp [documents]
  | cons t ts ih => simp [documents, ih, eq_comm]

theorem mem_fieldDocuments {fs : List (Field Shape)} {j : Json} :
    j ∈ fieldDocuments fs ↔
      ∃ f ∈ fs, .object [("key", .string f.key), ("value", f.value.document),
        ("isOptional", .boolean f.optional)] = j := by
  induction fs with
  | nil => simp [fieldDocuments]
  | cons f fs ih => simp [fieldDocuments, ih, eq_comm]

theorem wellFormed_tagged {tag key : String} {j : Json} (hk : "tag" ≠ key) (hj : j.WellFormed) :
    (tagged tag [(key, j)]).WellFormed := by
  refine Json.wellFormed_object.2 ⟨?_, ?_⟩
  · simp [Entries.Distinct, Entries.keys, hk]
  · intro m hm
    simp only [List.mem_cons, List.not_mem_nil, or_false] at hm
    rcases hm with rfl | rfl
    · trivial
    · exact hj

theorem wellFormed_documents {ts : List Shape} (h : ∀ t ∈ ts, t.document.WellFormed) :
    (Json.array (documents ts)).WellFormed := by
  refine Json.wellFormed_array.2 fun j hj => ?_
  obtain ⟨t, ht, rfl⟩ := mem_documents.1 hj
  exact h t ht

theorem wellFormed_fieldDocuments {fs : List (Field Shape)}
    (h : ∀ f ∈ fs, f.value.document.WellFormed) :
    (Json.array (fieldDocuments fs)).WellFormed := by
  refine Json.wellFormed_array.2 fun j hj => ?_
  obtain ⟨f, hf, rfl⟩ := mem_fieldDocuments.1 hj
  refine Json.wellFormed_object.2 ⟨by simp [Entries.Distinct, Entries.keys], ?_⟩
  intro m hm
  simp only [List.mem_cons, List.not_mem_nil, or_false] at hm
  rcases hm with rfl | rfl | rfl
  · trivial
  · exact h f hf
  · trivial

theorem wellFormed_document (t : Shape) : t.document.WellFormed := by
  induction t with
  | record fields ih => exact wellFormed_tagged (by decide) (wellFormed_fieldDocuments ih)
  | tuple elements ih => exact wellFormed_tagged (by decide) (wellFormed_documents ih)
  | array element ih => exact wellFormed_tagged (by decide) ih
  | union members ih => exact wellFormed_tagged (by decide) (wellFormed_documents ih)
  | primitive kind =>
    refine wellFormed_tagged (by decide) ?_
    cases kind <;> trivial
  | literal value =>
    refine wellFormed_tagged (by decide) ?_
    cases value with
    | boolean b => trivial
    | string s => trivial
    | number x => cases x <;> trivial
  | other kind => exact wellFormed_tagged (by decide) trivial

end Conformance.Shape
