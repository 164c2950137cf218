import Conformance.Proofs.Gate
import Conformance.Proofs.Json.ReadBack
import Conformance.Proofs.Shape.FirstViolation
import Conformance.Shape.Codec

/-!
# Ways to decode a text

There are three ways from a text to a shape. The text is read to its end as a
document, and the document is decoded; `Shape.decodeText` does the same in one
go; and the codec of shapes, which also serves inside other data, takes a
document off the front of the text, decodes it, and only then looks whether the
text ends there. All three accept the same texts. They differ in what they say
of a text that is wrong in two places, but not of a text that is a document.
-/
namespace Conformance

namespace Reader

variable {α β : Type} {reader : Reader α} {judge : α → Except Complaint β} {s : List Char}

theorem runToEnd_eq_ok_iff {a : α} :
    reader.runToEnd s = .ok a ↔ ∃ r, reader.run s = .ok (a, r) ∧ atEnd r = .ok () := by
  rw [runToEnd]
  cases reader.run s with
  | error e => simp
  | ok p => cases h : atEnd p.2 <;> simp [Prod.ext_iff, h]

theorem run_judged_eq_ok_iff {b : β} {r : List Char} :
    (reader.judged judge).run s = .ok (b, r) ↔
      ∃ a, reader.run s = .ok (a, r) ∧ judge a = .ok b := by
  simp only [judged]
  cases reader.run s with
  | error e => simp
  | ok p => cases h : judge p.1 <;> simp [Prod.ext_iff, h, and_comm]

theorem runToEnd_judged_eq_ok_iff {b : β} :
    (reader.judged judge).runToEnd s = .ok b ↔
      ∃ a, reader.runToEnd s = .ok a ∧ judge a = .ok b := by
  simp only [runToEnd_eq_ok_iff, run_judged_eq_ok_iff]
  constructor
  · intro h
    obtain ⟨r, ⟨a, hr, hj⟩, he⟩ := h
    exact ⟨a, ⟨r, hr, he⟩, hj⟩
  · intro h
    obtain ⟨a, ⟨r, hr, he⟩, hj⟩ := h
    exact ⟨r, ⟨a, hr, hj⟩, he⟩

theorem runToEnd_judged_of_complaint {a : α} {c : Complaint} (h : reader.runToEnd s = .ok a)
    (hc : judge a = .error c) :
    ∃ r, (reader.judged judge).runToEnd s = .error (.hold c r) := by
  obtain ⟨r, hr, -⟩ := runToEnd_eq_ok_iff.1 h
  exact ⟨r, by simp only [runToEnd, judged, hr, hc]⟩

end Reader

namespace Shape

variable {j : Json} {t : Shape} {f : Fault} {source : String}

theorem decodeText_of_ofText (h : Json.ofText source = .ok j) : decodeText source = decode j := by
  have hd : Codec.document.read source = .ok j := mapError_eq_ok.2 h
  rw [decodeText, hd]

theorem decodeText_eq_ok_iff_ofText :
    decodeText source = .ok t ↔ ∃ j, Json.ofText source = .ok j ∧ decode j = .ok t := by
  constructor
  · intro h
    cases hj : Json.ofText source with
    | ok j => exact ⟨j, rfl, decodeText_of_ofText hj ▸ h⟩
    | error r =>
      have hd : Codec.document.read source = .error (r.asFault source.toList) := by
        rw [Codec.read]
        exact congrArg (Except.mapError (Refusal.asFault source.toList)) hj
      rw [decodeText, hd] at h
      cases h
  · intro h
    obtain ⟨j, hj, ht⟩ := h
    rw [decodeText_of_ofText hj, ht]

theorem codec_ofText_eq_ok_iff :
    Codec.shape.ofText source = .ok t ↔ ∃ j, Json.ofText source = .ok j ∧ decode j = .ok t := by
  apply Reader.runToEnd_judged_eq_ok_iff.trans
  apply exists_congr
  intro j
  rw [mapError_eq_ok, decode_eq_ok_iff]
  rfl

theorem message_asComplaint (r : Rejection) :
    r.asComplaint.message = (r.asFault Address.root).message := by
  rw [Rejection.asFault, under_root]
  rfl

theorem codec_ofText_of_fault (hj : Json.ofText source = .ok j) (hf : decode j = .error f) :
    ∃ r, Codec.shape.ofText source = .error r ∧ r.message source.toList = f.message := by
  obtain ⟨rejection, hr, rfl⟩ := mapError_eq_error.1 hf
  let judge (j : Json) : Except Complaint Shape := (ofJson j).mapError Rejection.asComplaint
  have hc : judge j = .error rejection.asComplaint := by
    rw [show judge j = (ofJson j).mapError Rejection.asComplaint from rfl, hr, mapError_error]
  obtain ⟨rest, h⟩ := Reader.runToEnd_judged_of_complaint hj hc
  exact ⟨_, h, message_asComplaint rejection⟩

/-- The three ways accept the same texts and give the same shapes. Of a text that is a document
but does not decode, they report the same fault; the codec reports it by its message. -/
theorem decoding_ways_agree (source : String) :
    (∀ t, decodeText source = .ok t ↔ ∃ j, Json.ofText source = .ok j ∧ decode j = .ok t) ∧
    (∀ t, Codec.shape.ofText source = .ok t ↔
      ∃ j, Json.ofText source = .ok j ∧ decode j = .ok t) ∧
    ∀ j f, Json.ofText source = .ok j → decode j = .error f →
      (∃ path message, f = .malformedType path message) ∧
        decodeText source = .error f ∧
        ∃ r, Codec.shape.ofText source = .error r ∧ r.message source.toList = f.message := by
  refine ⟨fun t => decodeText_eq_ok_iff_ofText, fun t => codec_ofText_eq_ok_iff, ?_⟩
  intro j f hj hf
  have ht : decodeText source = .error f := (decodeText_of_ofText hj).trans hf
  exact ⟨malformed_of_decodeText ht, ht, codec_ofText_of_fault hj hf⟩

def unknownTag : Json :=
  .object [("tag", .string "tuple"),
    ("elementTypes", .array [.object [("tag", .string "function")]])]

theorem decoding_ways_agree_unknownTag :
    Json.ofText unknownTag.compact = .ok unknownTag ∧
      ∃ message, decode unknownTag = .error (.malformedType "elementTypes[0].tag" message) ∧
        decodeText unknownTag.compact = .error (.malformedType "elementTypes[0].tag" message) ∧
        ∃ r, Codec.shape.ofText unknownTag.compact = .error r ∧
          r.message unknownTag.compact.toList =
            (Fault.malformedType "elementTypes[0].tag" message).message := by
  have hw : unknownTag.WellFormed := by
    simp [unknownTag, Json.WellFormed, Json.WellFormedMembers, Json.WellFormedItems,
      Entries.Distinct, Entries.keys]
  have hj : Json.ofText unknownTag.compact = .ok unknownTag := Json.ofText_compact_eq_ok hw rfl
  have hf : decode unknownTag = .error (.malformedType "elementTypes[0].tag"
      (Complaint.unknownVariant "function" Tag.names).message) := rfl
  exact ⟨hj, _, hf, ((decoding_ways_agree _).2.2 _ _ hj hf).2⟩

end Shape
end Conformance
