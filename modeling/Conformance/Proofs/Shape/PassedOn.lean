import Conformance.Proofs.Json.ReadDocuments
import Conformance.Proofs.Json.RereadNumbers
import Conformance.Proofs.Shape.Tidy
import Conformance.Proofs.Shape.WaysToDecode

/-!
# Shapes that have been decoded can be passed on

A shape that has been decoded from a text has a text of its own, and that text is
decoded again. It is no deeper than the text that was decoded, because a wire
document of a shape has a container wherever the document of the shape has one,
and every number in it is read. What comes back may differ in its number
literals, which `Double.reread` takes to what is read for them, and in nothing
else.
-/
namespace Conformance

namespace Double

def reread : Double → Double
  | finite x => (x.reread.map finite).getD (finite x)
  | x => x

theorem reread_finite {x y : Finite} (h : x.reread = some y) :
    (finite x).reread = finite y := by
  rw [reread, h, Option.map_some, Option.getD_some]

theorem isFinite_reread (x : Double) : x.reread.isFinite = x.isFinite := by
  cases x with
  | finite x =>
    obtain ⟨y, hy⟩ := x.exists_reread
    rw [reread_finite hy]
    rfl
  | infinite negative => rfl
  | nan => rfl

end Double

namespace Json

theorem depth_lt_of_get? {members : Entries Json} {key : String} {j : Json}
    (h : members.get? key = some j) : j.depth < (object members).depth :=
  Nat.lt_succ_of_le (depthOfMembers_le_iff.1 (Nat.le_refl _) _ (Entries.mem_of_get? h))

theorem depth_tagged (tag key : String) (j : Json) :
    (Shape.tagged tag [(key, j)]).depth = j.depth + 1 := by
  simp [Shape.tagged, depth, depthOfMembers]

theorem depth_array_le_of_forall₂ {α : Type} {R : Json → α → Prop} {doc : α → Json}
    {items : List Json} {as : List α} (h : ∀ a ∈ as, ∀ j, R j a → (doc a).depth ≤ j.depth)
    (hR : List.Forall₂ R items as) : (array (as.map doc)).depth ≤ (array items).depth := by
  apply Nat.succ_le_succ
  induction hR with
  | nil => exact Nat.le_refl _
  | cons hja _ ih =>
    obtain ⟨ha, has⟩ := List.forall_mem_cons.1 h
    exact Nat.max_le.2 ⟨(ha _ hja).trans (Nat.le_max_left _ _),
      (ih has).trans (Nat.le_max_right _ _)⟩

end Json

def Literal.mapNumber (f : Double → Double) : Literal → Literal
  | number x => number (f x)
  | value => value

namespace Shape

variable {f : Double → Double} {t : Shape}

mutual
def mapNumbers (f : Double → Double) : Shape → Shape
  | record fields => record (mapNumbersOfFields f fields)
  | tuple elements => tuple (mapNumbersOfAll f elements)
  | array element => array (mapNumbers f element)
  | union members => union (mapNumbersOfAll f members)
  | primitive kind => primitive kind
  | literal value => literal (value.mapNumber f)
  | other kind => other kind
def mapNumbersOfAll (f : Double → Double) : List Shape → List Shape
  | [] => []
  | t :: ts => mapNumbers f t :: mapNumbersOfAll f ts
def mapNumbersOfFields (f : Double → Double) : List (Field Shape) → List (Field Shape)
  | [] => []
  | ⟨key, value, optional⟩ :: fs => ⟨key, mapNumbers f value, optional⟩ :: mapNumbersOfFields f fs
end

theorem mapNumbersOfAll_eq (ts : List Shape) : mapNumbersOfAll f ts = ts.map (mapNumbers f) := by
  induction ts with
  | nil => rfl
  | cons t ts ih => rw [mapNumbersOfAll, ih, List.map_cons]

theorem mapNumbersOfFields_eq (fs : List (Field Shape)) :
    mapNumbersOfFields f fs = fs.map fun g => ⟨g.key, g.value.mapNumbers f, g.optional⟩ := by
  induction fs with
  | nil => rfl
  | cons g fs ih => rw [mapNumbersOfFields, ih, List.map_cons]

theorem spelled_mapNumbers (hf : ∀ x : Double, x.isFinite = true → (f x).isFinite = true)
    (h : t.Spelled) : (t.mapNumbers f).Spelled := by
  induction t with
  | record fields ih =>
    obtain ⟨hd, hs⟩ := spelled_record.1 h
    rw [mapNumbers, mapNumbersOfFields_eq]
    refine spelled_record.2 ⟨?_, ?_⟩
    · rw [List.map_map]
      exact hd
    · refine List.forall_mem_map.2 fun g hg => ?_
      exact ih g hg (hs g hg)
  | tuple elements ih =>
    have hs := spelled_tuple.1 h
    rw [mapNumbers, mapNumbersOfAll_eq]
    refine spelled_tuple.2 (List.forall_mem_map.2 fun t ht => ?_)
    exact ih t ht (hs t ht)
  | array element ih => exact spelled_array.2 (ih (spelled_array.1 h))
  | union members ih =>
    have hs := spelled_union.1 h
    rw [mapNumbers, mapNumbersOfAll_eq]
    refine spelled_union.2 (List.forall_mem_map.2 fun t ht => ?_)
    exact ih t ht (hs t ht)
  | primitive kind => exact spelled_primitive kind
  | literal value =>
    apply spelled_literal.2
    intro x hx
    cases value with
    | number y =>
      cases hx
      exact hf y (spelled_literal.1 h y rfl)
    | boolean b => cases hx
    | string s => cases hx
  | other kind => exact spelled_other kind

theorem rereadAll_eq_map {ts : List Shape}
    (h : ∀ t ∈ ts, t.reread = some (t.mapNumbers Double.reread)) :
    rereadAll ts = some (mapNumbersOfAll Double.reread ts) := by
  induction ts with
  | nil => rfl
  | cons t ts ih =>
    obtain ⟨ht, hts⟩ := List.forall_mem_cons.1 h
    rw [rereadAll, ht, ih hts]
    rfl

theorem rereadFields_eq_map {fs : List (Field Shape)}
    (h : ∀ g ∈ fs, g.value.reread = some (g.value.mapNumbers Double.reread)) :
    rereadFields fs = some (mapNumbersOfFields Double.reread fs) := by
  induction fs with
  | nil => rfl
  | cons g fs ih =>
    obtain ⟨hg, hfs⟩ := List.forall_mem_cons.1 h
    obtain ⟨key, value, optional⟩ := g
    have hv : value.reread = some (value.mapNumbers Double.reread) := hg
    rw [rereadFields, hv, ih hfs]
    rfl

theorem literal_reread (value : Literal) :
    value.reread = some (value.mapNumber Double.reread) := by
  cases value with
  | boolean b => rfl
  | string s => rfl
  | number x =>
    cases x with
    | finite x =>
      obtain ⟨y, hy⟩ := x.exists_reread
      rw [Literal.reread, Literal.mapNumber, Double.reread_finite hy, hy]
      rfl
    | infinite negative => rfl
    | nan => rfl

theorem reread_eq (t : Shape) : t.reread = some (t.mapNumbers Double.reread) := by
  induction t with
  | record fields ih =>
    rw [reread, rereadFields_eq_map ih]
    rfl
  | tuple elements ih =>
    rw [reread, rereadAll_eq_map ih]
    rfl
  | array element ih =>
    rw [reread, ih]
    rfl
  | union members ih =>
    rw [reread, rereadAll_eq_map ih]
    rfl
  | primitive kind => rfl
  | literal value =>
    rw [reread, literal_reread]
    rfl
  | other kind => rfl

theorem depth_primitive (kind : Primitive) : kind.document.depth = 0 := by
  cases kind <;> simp [Primitive.document, Json.depth]

theorem depth_literal (value : Literal) : value.document.depth = 0 := by
  rcases value with b | x | s
  · simp [Literal.document, Json.depth]
  · cases x <;> simp [Literal.document, Json.depth]
  · simp [Literal.document, Json.depth]

theorem depth_fieldDocument (g : Field Shape) :
    (fieldDocument g).depth = g.value.document.depth + 1 := by
  simp [fieldDocument, Json.depth, Json.depthOfMembers]

theorem depth_le_of_describes {j : Json} (h : j.Describes t) : t.document.depth ≤ j.depth := by
  -- Members that are not read can only add depth; the one that is read is enough of a bound.
  induction t generalizing j with
  | record fields ih =>
    cases h with
    | record _ hl each _ =>
      rw [document, Json.depth_tagged, fieldDocuments_eq_map]
      refine (Nat.succ_le_succ (Json.depth_array_le_of_forall₂ ?_ each)).trans
        (Json.depth_lt_of_get? hl)
      intro g hg j hj
      cases hj with
      | mk _ hv h _ =>
        rw [depth_fieldDocument]
        exact (Nat.succ_le_succ (ih _ hg h)).trans (Json.depth_lt_of_get? hv)
  | tuple elements ih =>
    cases h with
    | tuple _ hl each =>
      rw [document, Json.depth_tagged, documents_eq_map]
      refine (Nat.succ_le_succ (Json.depth_array_le_of_forall₂ ?_ each)).trans
        (Json.depth_lt_of_get? hl)
      exact fun t ht j => ih t ht
  | array element ih =>
    cases h with
    | array _ hj h =>
      rw [document, Json.depth_tagged]
      exact (Nat.succ_le_succ (ih h)).trans (Json.depth_lt_of_get? hj)
  | union members ih =>
    cases h with
    | union _ hl each =>
      rw [document, Json.depth_tagged, documents_eq_map]
      refine (Nat.succ_le_succ (Json.depth_array_le_of_forall₂ ?_ each)).trans
        (Json.depth_lt_of_get? hl)
      exact fun t ht j => ih t ht
  | primitive kind =>
    cases h with
    | primitive _ _ _ =>
      rw [document, Json.depth_tagged, depth_primitive]
      exact Nat.succ_le_succ (Nat.zero_le _)
  | literal value =>
    cases h with
    | literal _ _ _ =>
      rw [document, Json.depth_tagged, depth_literal]
      exact Nat.succ_le_succ (Nat.zero_le _)
  | other kind =>
    cases h with
    | other _ _ _ =>
      rw [document, Json.depth_tagged]
      exact Nat.succ_le_succ (Nat.zero_le _)

/-- A shape that is decoded from a text repeats no key in a record and has finite number literals
only, it can be written, and what is written is decoded again, to a shape that differs from it at
most in its number literals. -/
theorem decoded_shapes_pass_on (source : String) (t : Shape) (h : decodeText source = .ok t) :
    t.KeysDistinct ∧ t.EveryNumber (fun x => x.isFinite = true) ∧
      ∃ s, t.wireText = .ok s ∧ decodeText s = .ok (t.mapNumbers Double.reread) := by
  obtain ⟨j, hj, hd⟩ := decodeText_eq_ok_iff_ofText.1 h
  have hdesc : j.Describes t := ofJson_eq_ok_iff_describes.1 (decode_eq_ok_iff.1 hd)
  have hs := spelled_of_describes hdesc
  have hdepth : t.document.depth ≤ 127 :=
    (depth_le_of_describes hdesc).trans (Json.readable_of_ofText hj).shallow
  refine ⟨hs.1, hs.2, t.document.compact, wireText_eq_ok_iff.2 ⟨rfl, hs.2⟩, ?_⟩
  refine decodeText_compact_eq_ok_iff.2 ⟨reread_eq t, spelled_mapNumbers ?_ hs, hdepth⟩
  intro x hx
  rwa [Double.isFinite_reread]

def notedSevens : Json :=
  .object [("note", .array [.array []]), ("tag", .string "array"),
    ("elementType", .object [("value", .number (.integer 7 (by decide) (by decide))),
      ("tag", .string "literal")])]

theorem notedSevens_passes_on :
    decodeText notedSevens.compact = .ok (array (literal (.number (.ofInt 7)))) ∧
      ∃ s, (array (literal (.number (.ofInt 7)))).wireText = .ok s ∧
        decodeText s = .ok (array (literal (.number (Double.ofInt 7).reread))) := by
  have hw : notedSevens.WellFormed := by
    simp [notedSevens, Json.WellFormed, Json.WellFormedMembers, Json.WellFormedItems,
      Entries.Distinct, Entries.keys]
  have hj : Json.ofText notedSevens.compact = .ok notedSevens := Json.ofText_compact_eq_ok hw rfl
  have hd : decodeText notedSevens.compact = .ok (array (literal (.number (.ofInt 7)))) :=
    (decodeText_of_ofText hj).trans rfl
  exact ⟨hd, (decoded_shapes_pass_on _ _ hd).2.2⟩

end Shape
end Conformance
