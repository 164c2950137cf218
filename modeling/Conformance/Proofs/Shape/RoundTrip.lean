import Conformance.Proofs.Json.ReadBack
import Conformance.Proofs.Shape.Decoding
import Conformance.Proofs.Shape.Encoding
import Conformance.Validation

/-!
# There and back over the wire

A shape is written as the compact text of its wire document. When that text is
read, the numbers in it may have become others; `Shape.reread` is the shape that
stands in the text then, and its wire document is the document that is read. The
shape comes back as it was exactly when every number is read back, no record has
a key twice, and the document is not too deep for the reader.
-/
namespace Conformance

def Literal.reread : Literal → Option Literal
  | boolean b => some (boolean b)
  | number (.finite x) => x.reread.map fun x => number (.finite x)
  | number x => some (number x)
  | string s => some (string s)

namespace Shape

variable {t u : Shape}

mutual
def reread : Shape → Option Shape
  | record fields => (rereadFields fields).map record
  | tuple elements => (rereadAll elements).map tuple
  | array element => (reread element).map array
  | union members => (rereadAll members).map union
  | primitive kind => some (primitive kind)
  | literal value => value.reread.map literal
  | other kind => some (other kind)
def rereadAll : List Shape → Option (List Shape)
  | [] => some []
  | t :: ts => (reread t).bind fun t => (rereadAll ts).map (t :: ·)
def rereadFields : List (Field Shape) → Option (List (Field Shape))
  | [] => some []
  | ⟨key, value, optional⟩ :: fs =>
    (reread value).bind fun value => (rereadFields fs).map (⟨key, value, optional⟩ :: ·)
end

theorem tagged_reread (tag key : String) (j : Json) :
    (tagged tag [(key, j)]).reread = j.reread.map fun j => tagged tag [(key, j)] := by
  simp only [tagged, Json.reread, Json.rereadMembers, Option.bind_some, Option.map_some]
  cases j.reread <;> rfl

theorem documents_reread {ts : List Shape}
    (h : ∀ t ∈ ts, t.document.reread = t.reread.map document) :
    Json.rereadItems (documents ts) = (rereadAll ts).map documents := by
  induction ts with
  | nil => rfl
  | cons t ts ih =>
    rw [documents, Json.rereadItems, rereadAll, h t List.mem_cons_self,
      ih fun t ht => h t (List.mem_cons_of_mem _ ht)]
    cases t.reread with
    | none => rfl
    | some t' => cases rereadAll ts <;> rfl

theorem fieldDocuments_reread {fs : List (Field Shape)}
    (h : ∀ f ∈ fs, f.value.document.reread = f.value.reread.map document) :
    Json.rereadItems (fieldDocuments fs) = (rereadFields fs).map fieldDocuments := by
  induction fs with
  | nil => rfl
  | cons f fs ih =>
    obtain ⟨key, value, optional⟩ := f
    have hv : value.document.reread = value.reread.map document := h _ List.mem_cons_self
    rw [fieldDocuments, Json.rereadItems, rereadFields,
      ih fun f hf => h f (List.mem_cons_of_mem _ hf)]
    simp only [Json.reread, Json.rereadMembers, Option.bind_some, Option.map_some, hv]
    cases value.reread with
    | none => rfl
    | some value' => cases rereadFields fs <;> rfl

theorem literal_document_reread (value : Literal) :
    value.document.reread = value.reread.map Literal.document := by
  cases value with
  | boolean b => rfl
  | string s => rfl
  | number x =>
    cases x with
    | finite x =>
      simp only [Literal.document, Json.reread, Json.Number.reread, Literal.reread]
      cases x.reread <;> rfl
    | infinite negative => rfl
    | nan => rfl

theorem document_reread (t : Shape) : t.document.reread = t.reread.map document := by
  induction t with
  | record fields ih =>
    rw [document, tagged_reread, Json.reread, fieldDocuments_reread ih, reread]
    cases rereadFields fields <;> rfl
  | tuple elements ih =>
    rw [document, tagged_reread, Json.reread, documents_reread ih, reread]
    cases rereadAll elements <;> rfl
  | array element ih =>
    rw [document, tagged_reread, ih, reread]
    cases element.reread <;> rfl
  | union members ih =>
    rw [document, tagged_reread, Json.reread, documents_reread ih, reread]
    cases rereadAll members <;> rfl
  | primitive kind => cases kind <;> rfl
  | literal value =>
    rw [document, tagged_reread, literal_document_reread, reread]
    cases value.reread <;> rfl
  | other kind => cases kind <;> rfl

theorem rereadAll_eq_self_iff {ts : List Shape} :
    rereadAll ts = some ts ↔ ∀ t ∈ ts, t.reread = some t := by
  induction ts with
  | nil => simp [rereadAll]
  | cons t ts ih => simp [rereadAll, Option.bind_eq_some_iff, ih]

theorem rereadFields_eq_self_iff {fs : List (Field Shape)} :
    rereadFields fs = some fs ↔ ∀ f ∈ fs, f.value.reread = some f.value := by
  induction fs with
  | nil => simp [rereadFields]
  | cons f fs ih =>
    obtain ⟨key, value, optional⟩ := f
    simp [rereadFields, Option.bind_eq_some_iff, ih]

theorem reread_eq_self_iff :
    t.reread = some t ↔ t.EveryNumber fun x => ∀ y, x = .finite y → y.reread = some y := by
  induction t with
  | record fields ih =>
    rw [reread, everyNumber_iff]
    simp only [Option.map_eq_some_iff, record.injEq, exists_eq_right, rereadFields_eq_self_iff,
      parts, List.mem_map, forall_exists_index, and_imp, forall_apply_eq_imp_iff₂, reduceCtorEq,
      false_imp_iff, implies_true, true_and]
    exact forall₂_congr ih
  | tuple elements ih =>
    rw [reread, everyNumber_iff]
    simp only [Option.map_eq_some_iff, tuple.injEq, exists_eq_right, rereadAll_eq_self_iff,
      parts, reduceCtorEq, false_imp_iff, implies_true, true_and]
    exact forall₂_congr ih
  | array element ih =>
    rw [reread, everyNumber_iff (t := array element)]
    simp [ih, parts]
  | union members ih =>
    rw [reread, everyNumber_iff]
    simp only [Option.map_eq_some_iff, union.injEq, exists_eq_right, rereadAll_eq_self_iff,
      parts, reduceCtorEq, false_imp_iff, implies_true, true_and]
    exact forall₂_congr ih
  | primitive kind =>
    rw [reread, everyNumber_iff]
    simp [parts]
  | literal value =>
    rw [reread, everyNumber_iff]
    simp only [Option.map_eq_some_iff, literal.injEq, exists_eq_right, parts, List.not_mem_nil,
      false_imp_iff, implies_true, and_true]
    cases value with
    | boolean b => simp [Literal.reread]
    | string s => simp [Literal.reread]
    | number x => cases x <;> simp [Literal.reread]
  | other kind =>
    rw [reread, everyNumber_iff]
    simp [parts]

theorem double_same_refl (x : Double) : x.same x = true := by
  cases x with
  | finite x => exact x.equals_refl
  | infinite negative => exact beq_self_eq_true negative
  | nan => rfl

theorem literal_same_refl (value : Literal) : value.same value = true := by
  cases value with
  | boolean b => exact beq_self_eq_true b
  | number x => exact double_same_refl x
  | string s => exact beq_self_eq_true s

theorem sameAll_refl {ts : List Shape} (h : ∀ t ∈ ts, t.same t = true) :
    sameAll ts ts = true := by
  induction ts with
  | nil => rfl
  | cons t ts ih =>
    rw [sameAll, h t List.mem_cons_self, ih fun t ht => h t (List.mem_cons_of_mem _ ht)]
    rfl

theorem sameFields_refl {fs : List (Field Shape)}
    (h : ∀ f ∈ fs, f.value.same f.value = true) : sameFields fs fs = true := by
  induction fs with
  | nil => rfl
  | cons f fs ih =>
    have hv := h f List.mem_cons_self
    have hfs := ih fun f hf => h f (List.mem_cons_of_mem _ hf)
    simp [sameFields, hv, hfs]

theorem same_refl (t : Shape) : t.same t = true := by
  induction t with
  | record fields ih => exact sameFields_refl ih
  | tuple elements ih => exact sameAll_refl ih
  | array element ih => exact ih
  | union members ih => exact sameAll_refl ih
  | primitive kind => exact beq_self_eq_true kind
  | literal value => exact literal_same_refl value
  | other kind => exact beq_self_eq_true kind

theorem eq_of_rereadAll_same {ts us : List Shape}
    (h : ∀ t ∈ ts, ∀ u, t.reread = some u → t.same u = true → u = t)
    (hr : rereadAll ts = some us) (hs : sameAll ts us = true) : us = ts := by
  induction ts generalizing us with
  | nil =>
    cases hr
    rfl
  | cons t ts ih =>
    simp only [rereadAll, Option.bind_eq_some_iff, Option.map_eq_some_iff] at hr
    obtain ⟨u, ht, us', hts, rfl⟩ := hr
    rw [sameAll, Bool.and_eq_true] at hs
    rw [h t List.mem_cons_self u ht hs.1,
      ih (fun t hm => h t (List.mem_cons_of_mem _ hm)) hts hs.2]

theorem eq_of_rereadFields_same {fs gs : List (Field Shape)}
    (h : ∀ f ∈ fs, ∀ u, f.value.reread = some u → f.value.same u = true → u = f.value)
    (hr : rereadFields fs = some gs) (hs : sameFields fs gs = true) : gs = fs := by
  induction fs generalizing gs with
  | nil =>
    cases hr
    rfl
  | cons f fs ih =>
    obtain ⟨key, value, optional⟩ := f
    simp only [rereadFields, Option.bind_eq_some_iff, Option.map_eq_some_iff] at hr
    obtain ⟨u, hv, gs', hfs, rfl⟩ := hr
    simp only [sameFields, Bool.and_eq_true] at hs
    have hu : u = value := h ⟨key, value, optional⟩ List.mem_cons_self u hv hs.1.1.2
    rw [hu, ih (fun f hm => h f (List.mem_cons_of_mem _ hm)) hfs hs.2]

/-- What is read is the same as what was written only when it is equal to it: reading keeps the
sign of a zero. -/
theorem eq_of_reread_same (hr : t.reread = some u) (hs : t.same u = true) : u = t := by
  induction t generalizing u with
  | record fields ih =>
    obtain ⟨gs, hg, rfl⟩ := Option.map_eq_some_iff.1 hr
    rw [eq_of_rereadFields_same (fun f hf u => @ih f hf u) hg hs]
  | tuple elements ih =>
    obtain ⟨us, hus, rfl⟩ := Option.map_eq_some_iff.1 hr
    rw [eq_of_rereadAll_same (fun t ht u => @ih t ht u) hus hs]
  | array element ih =>
    obtain ⟨u, hu, rfl⟩ := Option.map_eq_some_iff.1 hr
    rw [ih hu hs]
  | union members ih =>
    obtain ⟨us, hus, rfl⟩ := Option.map_eq_some_iff.1 hr
    rw [eq_of_rereadAll_same (fun t ht u => @ih t ht u) hus hs]
  | primitive kind =>
    cases hr
    rfl
  | literal value =>
    obtain ⟨value', hv, rfl⟩ := Option.map_eq_some_iff.1 hr
    cases value with
    | boolean b =>
      cases hv
      rfl
    | string s =>
      cases hv
      rfl
    | number x =>
      cases x with
      | finite x =>
        -- Only a finite number is read anew; all else stays as it is.
        obtain ⟨y, hy, rfl⟩ := Option.map_eq_some_iff.1 hv
        rw [Finite.eq_of_reread_equals hy hs]
      | infinite negative =>
        cases hv
        rfl
      | nan =>
        cases hv
        rfl
  | other kind =>
    cases hr
    rfl

theorem wireText_eq_ok_iff {s : String} :
    t.wireText = .ok s ↔
      s = t.document.compact ∧ t.EveryNumber fun x => x.isFinite = true := by
  simp only [wireText, mapError_eq_ok, map_eq_ok, encode_eq_ok_iff]
  constructor
  · intro h
    obtain ⟨j, ⟨hj, hf⟩, hs⟩ := h
    exact ⟨by rw [← hs, hj], hf⟩
  · intro h
    obtain ⟨hs, hf⟩ := h
    exact ⟨t.document, ⟨rfl, hf⟩, hs.symm⟩

theorem decodeText_eq_ok_iff {s : String} :
    decodeText s = .ok u ↔ ∃ j, (Json.ofText s).toOption = some j ∧ ofJson j = .ok u := by
  have hd : Codec.document.read s = (Json.ofText s).mapError (Refusal.asFault s.toList) := rfl
  rw [decodeText, hd]
  cases Json.ofText s with
  | error e => simp [mapError_error, Except.toOption]
  | ok j =>
    change decode j = .ok u ↔ _
    rw [decode, decodeAt, mapError_eq_ok]
    simp [Except.toOption]

theorem decodeText_compact_eq_ok_iff :
    decodeText t.document.compact = .ok u ↔
      t.reread = some u ∧ u.Spelled ∧ t.document.depth ≤ 127 := by
  rw [decodeText_eq_ok_iff, Json.ofText_compact (wellFormed_document t), Json.rereadWithin,
    document_reread]
  by_cases hd : t.document.depth ≤ Reader.depthLimit
  · have hd' : t.document.depth ≤ 127 := hd
    simp only [hd, hd', if_true, and_true, Option.map_eq_some_iff]
    constructor
    · intro h
      obtain ⟨j, ⟨u', hu, hj⟩, ho⟩ := h
      rw [← hj, ofJson_document_eq_ok_iff] at ho
      obtain ⟨rfl, hs⟩ := ho
      exact ⟨hu, hs⟩
    · intro h
      obtain ⟨hu, hs⟩ := h
      exact ⟨u.document, ⟨u, hu, rfl⟩, ofJson_document_eq_ok_iff.2 ⟨rfl, hs⟩⟩
  · have hd' : ¬ t.document.depth ≤ 127 := hd
    simp [hd, hd']

theorem everyNumber_readsBack_iff :
    t.EveryNumber Double.ReadsBack ↔
      t.reread = some t ∧ t.EveryNumber fun x => x.isFinite = true := by
  rw [reread_eq_self_iff]
  constructor
  · intro h
    refine ⟨fun x hx y hy => ?_, fun x hx => ?_⟩
    · have hb := h x hx
      rw [hy] at hb
      exact Finite.readsBack_iff.1 hb
    · have hb := h x hx
      cases x with
      | finite x => rfl
      | infinite negative => exact hb.elim
      | nan => exact hb.elim
  · intro h x hx
    obtain ⟨h, hf⟩ := h
    have hxf := hf x hx
    cases x with
    | finite x => exact Finite.readsBack_iff.2 (h _ hx x rfl)
    | infinite negative => cases hxf
    | nan => cases hxf

theorem eq_of_round_trip {s : String} (hw : t.wireText = .ok s) (hd : decodeText s = .ok u)
    (hs : t.same u = true) : u = t := by
  obtain ⟨rfl, -⟩ := wireText_eq_ok_iff.1 hw
  exact eq_of_reread_same (decodeText_compact_eq_ok_iff.1 hd).1 hs

/-- A shape comes back from its wire text as the same shape exactly when each of its number
literals is read back, no record in it declares a key twice, and at most 127 containers nest in its
wire document; and what comes back has the same canonical text. -/
theorem round_trip_iff (t : Shape) :
    ((∃ s u, t.wireText = .ok s ∧ decodeText s = .ok u ∧ t.same u = true) ↔
        t.EveryNumber Double.ReadsBack ∧ t.KeysDistinct ∧ t.document.depth ≤ 127) ∧
      ∀ s u, t.wireText = .ok s → decodeText s = .ok u → t.same u = true →
        u.render = t.render := by
  refine ⟨?_, fun s u hw hd hs => by rw [eq_of_round_trip hw hd hs]⟩
  rw [everyNumber_readsBack_iff]
  constructor
  · intro h
    obtain ⟨s, u, hw, hd, hs⟩ := h
    have hu := eq_of_round_trip hw hd hs
    subst hu
    obtain ⟨rfl, hf⟩ := wireText_eq_ok_iff.1 hw
    obtain ⟨hr, hsp, hdepth⟩ := decodeText_compact_eq_ok_iff.1 hd
    exact ⟨⟨hr, hf⟩, hsp.1, hdepth⟩
  · intro h
    obtain ⟨⟨hr, hf⟩, hk, hdepth⟩ := h
    exact ⟨t.document.compact, t, wireText_eq_ok_iff.2 ⟨rfl, hf⟩,
      decodeText_compact_eq_ok_iff.2 ⟨hr, ⟨hk, hf⟩, hdepth⟩, same_refl t⟩

end Shape
end Conformance
