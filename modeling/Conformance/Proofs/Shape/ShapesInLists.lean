import Conformance.Proofs.Json.Mirroring
import Conformance.Proofs.Shape.WaysToDecode

/-!
# Shapes in lists

A text with a list of shapes can be read by the codec of lists of them, and its
elements can be decoded one by one. Both accept the same texts and give the same
shapes. The codec of shapes reports a fault as one complaint at its own root; the
list puts the index in front of it, so the address names the element and the
message says where in the element the fault is.
-/
namespace Conformance

theorem Refusal.message_eq_append (e : Refusal) (source : List Char) :
    ∃ tail, e.message source = e.cause.message ++ tail := by
  cases h : e.place with
  | pending rest => exact ⟨"", by rw [message, h, String.append_empty]⟩
  | fixed left =>
    simp only [message, h, String.append_assoc]
    exact ⟨_, rfl⟩

namespace Codec

variable {α : Type} {codec : Codec α} {source : String} {j : Json}

theorem read_eq_ok_iff (hf : codec.Faithful) (hm : codec.Mirrored) {a : α} :
    codec.read source = .ok a ↔ ∃ j, Json.ofText source = .ok j ∧ codec.tree j = .ok a := by
  rw [read, Shape.mapError_eq_ok]
  simp only [ofText, Json.ofText, Reader.runToEnd_eq_ok_iff]
  constructor
  · intro h
    obtain ⟨rest, hr, he⟩ := h
    obtain ⟨j, hj, ha⟩ := hf _ _ _ _ hr
    exact ⟨j, ⟨rest, hj, he⟩, ha⟩
  · intro h
    obtain ⟨j, ⟨rest, hj, he⟩, ha⟩ := h
    exact ⟨rest, (hm _).accepts hj ha, he⟩

theorem read_of_rejection (hm : codec.Mirrored) (hj : Json.ofText source = .ok j)
    {r : Rejection} (hr : codec.tree j = .error r) :
    ∃ tail, codec.read source =
      .error (.malformedType (Address.text r.address) (r.complaint.message ++ tail)) := by
  obtain ⟨rest, hrun, -⟩ := Reader.runToEnd_eq_ok_iff.1 hj
  obtain ⟨e, he, haddress, hcause⟩ := (hm _).refuses hrun hr
  obtain ⟨tail, htail⟩ := e.message_eq_append source.toList
  refine ⟨tail, mapError_eq_error.2 ⟨e, ?_, ?_⟩⟩
  · rw [ofText, Reader.runToEnd, he]
  · rw [Refusal.asFault, haddress, htail, hcause, Cause.message]

end Codec

namespace Shape

variable {j : Json} {t : Shape} {f : Fault} {source : String}

theorem tree_shape_eq_ok_iff : Codec.shape.tree j = .ok t ↔ decode j = .ok t := by
  rw [decode_eq_ok_iff]
  exact mapError_eq_ok

theorem tree_shape_of_fault (h : decode j = .error f) :
    ∃ c : Complaint, Codec.shape.tree j = .error ⟨[], c⟩ ∧ c.message = f.message := by
  obtain ⟨r, hr, rfl⟩ := mapError_eq_error.1 h
  exact ⟨r.asComplaint, mapError_eq_error.2 ⟨r, hr, rfl⟩, message_asComplaint r⟩

theorem faithful_shape : Codec.shape.Faithful := by
  intro depth s t r hs
  obtain ⟨j, hj, ht⟩ := Reader.run_judged_eq_ok_iff.1 hs
  exact ⟨j, hj, mapError_eq_ok.2 (mapError_eq_ok.1 ht)⟩

section
variable {js before after : List Json} {ts : List Shape}

theorem read_list_eq_ok_iff :
    (Codec.list Codec.shape).read source = .ok ts ↔
      ∃ js, Json.ofText source = .ok (.array js) ∧
        List.Forall₂ (fun j t => decode j = .ok t) js ts := by
  rw [Codec.read_eq_ok_iff (Codec.faithful_list faithful_shape)
    (Codec.mirrored_list Codec.mirrored_shape)]
  simp only [Codec.tree_list_eq_ok_iff, tree_shape_eq_ok_iff]
  constructor
  · intro h
    obtain ⟨_, hj, js, rfl, each⟩ := h
    exact ⟨js, hj, each⟩
  · intro h
    obtain ⟨js, hj, each⟩ := h
    exact ⟨_, hj, js, rfl, each⟩

theorem read_list_of_fault
    (hj : Json.ofText source = .ok (.array (before ++ j :: after)))
    (met : ∀ k ∈ before, ∃ t, decode k = .ok t) (hf : decode j = .error f) :
    ∃ tail, (Codec.list Codec.shape).read source =
      .error (.malformedType ("[" ++ toString before.length ++ "]") (f.message ++ tail)) := by
  obtain ⟨c, hc, hmessage⟩ := tree_shape_of_fault hf
  have hl : (Codec.list Codec.shape).tree (.array (before ++ j :: after)) =
      .error (Rejection.below (.index (0 + before.length)) ⟨[], c⟩) := by
    refine treeOfItems_eq_error_iff.2 ⟨before, j, after, _, rfl, ?_, hc, rfl⟩
    simpa only [tree_shape_eq_ok_iff] using met
  obtain ⟨tail, ht⟩ := Codec.read_of_rejection (Codec.mirrored_list Codec.mirrored_shape) hj hl
  refine ⟨tail, ht.trans ?_⟩
  rw [← hmessage]
  simp [Rejection.below, Address.text, Address.stepText, Address.tailText]

theorem exists_first_fault
    (h : ∀ ts, ¬ List.Forall₂ (fun j t => decode j = .ok t) js ts) :
    ∃ before j after f, js = before ++ j :: after ∧
      (∀ k ∈ before, ∃ t, decode k = .ok t) ∧ decode j = .error f := by
  cases hl : Codec.treeOfItems ofJson 0 js with
  | ok ts =>
    exact absurd ((treeOfItems_eq_ok_iff.1 hl).imp fun _ _ => decode_eq_ok_iff.2) (h ts)
  | error r =>
    obtain ⟨before, j, after, e, rfl, met, he, -⟩ := treeOfItems_eq_error_iff.1 hl
    refine ⟨before, j, after, _, rfl, ?_, mapError_eq_error.2 ⟨e, he, rfl⟩⟩
    simpa only [decode_eq_ok_iff] using met

end

/-- The shapes of a list are those of its elements. If an element does not decode, the list is
refused at the first such element, and the message begins with the fault of that element. -/
theorem shapes_embed_in_lists (source : String) :
    (∀ ts, (Codec.list Codec.shape).read source = .ok ts ↔
      ∃ js, Json.ofText source = .ok (.array js) ∧
        List.Forall₂ (fun j t => decode j = .ok t) js ts) ∧
    ∀ js, Json.ofText source = .ok (.array js) →
      (∀ ts, ¬ List.Forall₂ (fun j t => decode j = .ok t) js ts) →
      ∃ before j after f tail, js = before ++ j :: after ∧
        (∀ k ∈ before, ∃ t, decode k = .ok t) ∧ decode j = .error f ∧
        (Codec.list Codec.shape).read source =
          .error (.malformedType ("[" ++ toString before.length ++ "]") (f.message ++ tail)) := by
  refine ⟨fun ts => read_list_eq_ok_iff, ?_⟩
  intro js hj hnone
  obtain ⟨before, j, after, f, rfl, met, hf⟩ := exists_first_fault hnone
  obtain ⟨tail, hread⟩ := read_list_of_fault hj met hf
  exact ⟨before, j, after, f, tail, rfl, met, hf, hread⟩

def mixedItems : List Json :=
  [.object [("tag", .string "primitive"), ("type", .string "string")],
    .object [("tag", .string "function")], .null]

theorem shapes_embed_in_lists_mixedItems :
    ∃ message, decode (.object [("tag", .string "function")]) =
        .error (.malformedType "tag" message) ∧
      ∃ tail, (Codec.list Codec.shape).read (Json.array mixedItems).compact =
        .error (.malformedType "[1]"
          ("malformed type description at JSON path tag: " ++ message ++ tail)) := by
  have hw : (Json.array mixedItems).WellFormed := by
    simp [mixedItems, Json.WellFormed, Json.WellFormedMembers, Json.WellFormedItems,
      Entries.Distinct, Entries.keys]
  have hj : Json.ofText (Json.array mixedItems).compact = .ok (.array mixedItems) :=
    Json.ofText_compact_eq_ok hw rfl
  have hf : decode (.object [("tag", .string "function")]) =
      .error (.malformedType "tag" (Complaint.unknownVariant "function" Tag.names).message) := rfl
  have hnone (ts : List Shape) :
      ¬ List.Forall₂ (fun j t => decode j = .ok t) mixedItems ts := by
    rintro (_ | ⟨_, _ | ⟨h, _⟩⟩)
    cases hf.symm.trans h
  obtain ⟨before, j, after, f, tail, hjs, met, hd, hread⟩ :=
    (shapes_embed_in_lists _).2 _ hj hnone
  obtain _ | ⟨k, _ | ⟨k', before⟩⟩ := before
  · cases hjs
    cases hd
  · cases hjs
    cases hf.symm.trans hd
    exact ⟨_, hf, tail, hread⟩
  · obtain ⟨t, ht⟩ := met k' (by simp)
    simp only [mixedItems, List.cons_append, List.cons.injEq] at hjs
    rw [← hjs.2.1] at ht
    cases hf.symm.trans ht

end Shape
end Conformance
