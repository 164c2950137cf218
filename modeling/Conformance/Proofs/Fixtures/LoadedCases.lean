import Conformance.Fixtures.Run
import Conformance.Proofs.Json.ReadDocuments
import Conformance.Proofs.Shape.WaysToDecode

/-!
# Cases that have been loaded

The runner sends the type description of a case through its text. That
description has been read from a file itself, so it is well formed and not too
deep; what readers yield is followed through the codecs of records and lists for
this. If moreover all its numbers are whole, it is read from its text as it
stands, and the result of the case is that of decoding the description and
checking the value against the shape (`Case.libraryResult`).
-/
namespace Conformance

namespace Json

mutual
def OnlyIntegers : Json → Prop
  | number (.float _) => False
  | array items => OnlyIntegersOfItems items
  | object members => OnlyIntegersOfMembers members
  | _ => True
def OnlyIntegersOfItems : List Json → Prop
  | [] => True
  | j :: js => OnlyIntegers j ∧ OnlyIntegersOfItems js
def OnlyIntegersOfMembers : List (String × Json) → Prop
  | [] => True
  | (_, j) :: ms => OnlyIntegers j ∧ OnlyIntegersOfMembers ms
end

theorem rereadItems_of_onlyIntegers {js : List Json}
    (h : ∀ j ∈ js, j.OnlyIntegers → j.reread = some j) (hi : OnlyIntegersOfItems js) :
    rereadItems js = some js := by
  induction js with
  | nil => rfl
  | cons j js ih =>
    obtain ⟨hj, hjs⟩ := List.forall_mem_cons.1 h
    rw [rereadItems, hj hi.1, ih hjs hi.2]
    rfl

theorem rereadMembers_of_onlyIntegers {ms : List (String × Json)}
    (h : ∀ m ∈ ms, m.2.OnlyIntegers → m.2.reread = some m.2) (hi : OnlyIntegersOfMembers ms) :
    rereadMembers ms = some ms := by
  induction ms with
  | nil => rfl
  | cons m ms ih =>
    obtain ⟨hm, hms⟩ := List.forall_mem_cons.1 h
    rw [rereadMembers, hm hi.1, ih hms hi.2]
    rfl

theorem reread_of_onlyIntegers {j : Json} (h : j.OnlyIntegers) : j.reread = some j := by
  induction j with
  | null => rfl
  | boolean b => rfl
  | number n =>
    cases n with
    | integer n lower upper => rfl
    | float x => exact h.elim
  | string s => rfl
  | array items ih =>
    rw [reread, rereadItems_of_onlyIntegers ih h]
    rfl
  | object members ih =>
    rw [reread, rereadMembers_of_onlyIntegers ih h]
    rfl

theorem ofText_compact_of_readable {j : Json} (h : j.Readable Reader.depthLimit)
    (hi : j.OnlyIntegers) : Json.ofText j.compact = .ok j := by
  apply ofText_compact_eq_ok h.wellFormed
  rw [rereadWithin, if_pos h.shallow, reread_of_onlyIntegers hi]

end Json

namespace Reader

variable {α : Type} {P : α → Prop} {depth : Nat}

theorem yields_inner {f : Nat → Reader α} (h : ∀ d < depth, (f d).Yields P) :
    ∀ reader ∈ inner f depth, reader.Yields P := by
  cases depth with
  | zero => exact nofun
  | succ d =>
    rintro _ ⟨⟩
    exact h d (Nat.lt_succ_self d)

theorem yields_container {bracket : Char} {wanted : String} {body : Option (Reader α)}
    (h : ∀ reader ∈ body, reader.Yields P) : (container bracket wanted body).Yields P := by
  refine yields_begin (fun _ => rfl) fun c s a r hs => ?_
  split at hs
  · exact yields_enter h hs
  · cases hs

theorem yields_eitherContainer {wanted : String} {listBody objectBody : Option (Reader α)}
    (hlist : ∀ reader ∈ listBody, reader.Yields P)
    (hobject : ∀ reader ∈ objectBody, reader.Yields P) :
    (eitherContainer wanted listBody objectBody).Yields P := by
  refine yields_begin (fun _ => rfl) fun c s a r hs => ?_
  split at hs
  · exact yields_enter hlist hs
  split at hs
  · exact yields_enter hobject hs
  · cases hs

end Reader

theorem Codec.yields_list {α : Type} {item : Codec α} {P : α → Prop} {depth : Nat}
    (h : ∀ d < depth, (item.text d).Yields P) :
    ((Codec.list item).text depth).Yields fun as => ∀ a ∈ as, P a := by
  apply Reader.yields_container
  apply Reader.yields_inner
  intro d hd
  exact Reader.yields_listOf (h d hd)

namespace RecordCodec

variable {σ : Type} {record : RecordCodec σ} {P : σ → Prop} {depth : Nat}

def Keeps (P : σ → Prop) (depth : Nat) (m : Member σ) : Prop :=
  (m.text depth).Yields fun change => ∀ s, P s → P (change s)

theorem keeps_member {α : Type} {codec : Codec α} {name : String} {required : Bool}
    {put : α → σ → σ} {Q : α → Prop} (hc : (codec.text depth).Yields Q)
    (hput : ∀ a, Q a → ∀ s, P s → P (put a s)) :
    Keeps P depth (codec.member name required put) :=
  Reader.yields_map (hc.mono hput)

theorem yields_fromEntries (hblank : P record.blank)
    (h : ∀ m ∈ record.members, Keeps P depth m) : (record.fromEntries depth).Yields P := by
  refine Reader.yields_entries (I := fun draft : Draft σ => P draft.2) hblank ?_ ?_
  · intro draft hdraft name value hv
    unfold entry at hv
    split at hv
    · rename_i m hm
      split at hv
      · cases hv
      · cases hv
        apply Reader.yields_map
        exact (h m (List.mem_of_find?_eq_some hm)).mono fun change hc => hc draft.2 hdraft
    · split at hv
      · cases hv
      · cases hv
        apply Reader.yields_map
        exact (Reader.yields_true _).mono fun _ _ => hdraft
  · intro draft s hdraft hs
    unfold finish at hs
    split at hs
    · cases hs
    · cases hs
      exact hdraft

theorem yields_fromElements (hblank : P record.blank)
    (h : ∀ m ∈ record.members, Keeps P depth m) : (record.fromElements depth).Yields P := by
  refine Reader.yields_elements
    (I := fun state : List (Member σ) × σ => (∀ m ∈ state.1, Keeps P depth m) ∧ P state.2)
    ⟨h, hblank⟩ ?_ ?_
  · rintro ⟨left, s⟩ ⟨hleft, hs⟩ reader hr
    cases left with
    | nil => cases hr
    | cons m left =>
      cases hr
      obtain ⟨hm, hleft⟩ := List.forall_mem_cons.1 hleft
      apply Reader.yields_map
      exact hm.mono fun change hc => ⟨hleft, hc s hs⟩
  · rintro ⟨left, s⟩ s' ⟨-, hs⟩ hf
    dsimp only at hf
    split at hf
    · cases hf
    · cases hf
      exact hs

theorem yields_text (hblank : P record.blank)
    (h : ∀ d < depth, ∀ m ∈ record.members, Keeps P d m) : (record.text depth).Yields P := by
  apply Reader.yields_eitherContainer
  · apply Reader.yields_inner
    intro d hd
    exact yields_fromElements hblank (h d hd)
  · apply Reader.yields_inner
    intro d hd
    exact yields_fromEntries hblank (h d hd)

end RecordCodec

namespace Case

theorem yields_text {depth : Nat} (hd : depth ≤ Reader.depthLimit) :
    (codec.text depth).Yields fun c => c.type.Readable Reader.depthLimit := by
  refine RecordCodec.yields_text ⟨trivial, Nat.zero_le _⟩ fun d hlt => ?_
  have htype : d ≤ Reader.depthLimit := hlt.le.trans hd
  simp only [List.forall_mem_cons, List.not_mem_nil, false_imp_iff, implies_true, and_true]
  refine ⟨?_, ?_, ?_, ?_, ?_, ?_⟩
  · exact RecordCodec.keeps_member (Reader.yields_true _) fun _ _ _ h => h
  · exact RecordCodec.keeps_member (Reader.yields_document d) fun _ hj _ _ => hj.mono htype
  · exact RecordCodec.keeps_member (Reader.yields_true _) fun _ _ _ h => h
  · exact RecordCodec.keeps_member (Reader.yields_true _) fun _ _ _ h => h
  · exact RecordCodec.keeps_member (Reader.yields_true _) fun _ _ _ h => h
  · exact RecordCodec.keeps_member (Reader.yields_true _) fun _ _ _ h => h

/-- The type description is decoded as the document it is, unless the version is not supported,
and the value is checked against the shape. -/
def libraryResult (c : Case) : Except Fault Value :=
  match checkVersion (c.version.getD schemaVersion) with
  | .error f => .error f
  | .ok () =>
    match Shape.decode c.type with
    | .error f => .error f
    | .ok t => t.accept (.ofJson c.value)

theorem result_eq_libraryResult {c : Case} (h : c.type.Readable Reader.depthLimit)
    (hi : c.type.OnlyIntegers) : c.result = c.libraryResult := by
  have hd : Shape.decodeText c.type.compact = Shape.decode c.type :=
    Shape.decodeText_of_ofText (Json.ofText_compact_of_readable h hi)
  cases hv : checkVersion (c.version.getD schemaVersion) with
  | error f => simp only [result, validate, libraryResult, hv]
  | ok _ =>
    cases ht : Shape.decode c.type <;> simp only [result, validate, libraryResult, hv, hd, ht]

end Case

namespace Fixtures

variable {files : Files} {file : String} {cases : List Case}

theorem loadCases_eq_ok_iff :
    loadCases files file = .ok cases ↔ ∃ source rest, files.read file = .ok source ∧
      ((Codec.list Case.codec).text Reader.depthLimit).run source.toList = .ok (cases, rest) := by
  rw [loadCases]
  cases files.read file with
  | error e => simp
  | ok source =>
    cases hr : ((Codec.list Case.codec).text Reader.depthLimit).run source.toList with
    | error r => simp [hr]
    | ok p => simp [hr, Prod.ext_iff]

theorem readable_of_loadCases (h : loadCases files file = .ok cases) :
    ∀ c ∈ cases, c.type.Readable Reader.depthLimit := by
  obtain ⟨source, rest, -, hr⟩ := loadCases_eq_ok_iff.1 h
  exact Codec.yields_list (fun d hd => Case.yields_text hd.le) _ _ _ hr

end Fixtures

end Conformance
