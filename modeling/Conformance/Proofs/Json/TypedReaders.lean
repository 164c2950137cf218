import Conformance.Codec.Record
import Conformance.Proofs.Json.ReadDocuments
import Conformance.Proofs.Shape.WireDocuments
import Mathlib.Data.List.DropRight

/-!
# Typed readers and documents

A codec can read a value from a text without making a document of it. What it
then takes off the text is one document all the same, and the value is the one
that is decoded from that document (`Codec.Faithful`). `Reader.Follows` says this
of a reader and a reader of documents. The combinators hand it on; for the loops
over elements and entries a relation is carried along between what has been read
of a document and what the typed loop has made of it.
-/
namespace Conformance

namespace Reader

section
variable {α β σ : Type} {S : Json → α → Prop}

/-- Whatever the reader takes off a text the other takes off as a document, which is related to what
the reader makes of it. -/
def Follows (reader : Reader α) (documents : Reader Json) (S : Json → α → Prop) : Prop :=
  ∀ s a r, reader.run s = .ok (a, r) → ∃ j, documents.run s = .ok (j, r) ∧ S j a

theorem Follows.mono {reader : Reader α} {documents : Reader Json} {S' : Json → α → Prop}
    (h : reader.Follows documents S) (hS : ∀ j a, S j a → S' j a) :
    reader.Follows documents S' := by
  intro s a r hs
  obtain ⟨j, hj, ha⟩ := h s a r hs
  exact ⟨j, hj, hS j a ha⟩

theorem follows_map {reader : Reader α} {documents : Reader Json} {f : α → β}
    {S : Json → β → Prop} (h : reader.Follows documents fun j a => S j (f a)) :
    (reader.map f).Follows documents S := by
  intro s b r hs
  obtain ⟨a, ha, rfl⟩ := run_map_eq_ok hs
  exact h s a r ha

theorem run_map {reader : Reader α} {f : α → β} {s r : List Char} {a : α}
    (h : reader.run s = .ok (a, r)) : (reader.map f).run s = .ok (f a, r) := by
  simp only [map, h]

section
variable {step : σ → Option (Reader σ)} {element : Reader σ} {i : Nat} {state state' : σ}
  {s t r : List Char}

theorem gatherElements_stop (hs : step state = some element)
    (hn : nextElement (i == 0) s = .ok none) : gatherElements step i state s = .ok (state, s) := by
  rw [gatherElements]
  simp only [hs]
  split
  · simp_all
  · rfl
  · simp_all

theorem gatherElements_next (hs : step state = some element)
    (hn : nextElement (i == 0) s = .ok (some t)) (he : element.run t = .ok (state', r)) :
    gatherElements step i state s = gatherElements step (i + 1) state' r := by
  rw [gatherElements]
  simp only [hs]
  split
  · simp_all
  · simp_all
  · split <;> simp_all

theorem nextElement_of_closeList {first : Bool} (h : closeList s = (none, r)) :
    nextElement first s = .ok none := by
  unfold closeList at h
  split at h
  · cases h
  · rename_i hs
    simp only [nextElement, hs]
  · split at h <;> cases h
  · cases h

/-- A typed loop may want no more elements before the list ends, and then it can only leave the
list. -/
theorem gatherElements_follows {documents : Reader Json} {I : List Json → σ → Prop}
    (hstep : ∀ js state, I js state → ∀ element ∈ step state,
      element.Follows documents fun j state' => I (j :: js) state')
    {js : List Json} (h0 : I js state) (h : gatherElements step i state s = .ok (state', t))
    (hc : closeList t = (none, r)) :
    ∃ js', gatherElements (fun read => some (documents.map (· :: read))) i js s = .ok (js', t) ∧
      I js' state' := by
  fun_induction gatherElements step i state s generalizing js with
  | case1 i state s hn =>
    cases h
    exact ⟨js, gatherElements_stop rfl (nextElement_of_closeList hc), h0⟩
  | case2 => cases h
  | case3 i state s element _ hn =>
    cases h
    exact ⟨js, gatherElements_stop rfl hn, h0⟩
  | case4 => cases h
  | case5 i state s element hs u hn state'' r' he ih =>
    obtain ⟨j, hj, hI⟩ := hstep js state h0 element hs u state'' r' he
    obtain ⟨js', hg, hI'⟩ := ih hI h
    exact ⟨js', (gatherElements_next rfl hn (run_map hj)).trans hg, hI'⟩

end

theorem follows_elements {step : σ → Option (Reader σ)} {init : σ}
    {finish : σ → Except Complaint α} {documents : Reader Json} {I : List Json → σ → Prop}
    (h0 : I [] init)
    (hstep : ∀ js state, I js state → ∀ element ∈ step state,
      element.Follows documents fun j state' => I (j :: js) state')
    (hfinish : ∀ js state a, I js state → finish state = .ok a → S (.array js.reverse) a) :
    (elements step init finish).Follows (items documents) S := by
  intro s a r hs
  obtain ⟨state, t, hg, hf, hc⟩ := conclude_eq_ok_iff.1 hs
  obtain ⟨js, hg', hI⟩ := gatherElements_follows hstep h0 hg hc
  refine ⟨.array js.reverse, run_map ?_, hfinish js state a hI hf⟩
  exact conclude_eq_ok_iff.2 ⟨js, t, hg', rfl, hc⟩

section
variable {key : Reader String} {entry : σ → String → Except Rejection (Reader σ)} {first : Bool}
  {value : Reader σ} {state state' : σ} {s t t' u r : List Char} {name : String}

theorem gatherEntries_stop (hn : nextKey first s = .ok none) :
    gatherEntries key entry first state s = .ok (state, s) := by
  rw [gatherEntries]
  split
  · simp_all
  · rfl
  · simp_all

theorem gatherEntries_next (hn : nextKey first s = .ok (some t)) (hk : key.run t = .ok (name, t'))
    (he : entry state name = .ok value) (hc : colon t' = .ok u)
    (hv : value.run u = .ok (state', r)) :
    gatherEntries key entry first state s = gatherEntries key entry false state' r := by
  rw [gatherEntries]
  split
  · simp_all
  · simp_all
  · split
    · simp_all
    · split
      · simp_all
      · split
        · simp_all
        · split <;> simp_all

theorem gatherEntries_follows {documents : Reader Json} {I : Entries Json → σ → Prop}
    (hentry : ∀ ms state, I ms state → ∀ name value, entry state name = .ok value →
      value.Follows documents fun j state' => I (ms.insert name j) state')
    {ms : Entries Json} (h0 : I ms state)
    (h : gatherEntries key entry first state s = .ok (state', t)) :
    ∃ ms', gatherEntries key (fun read name => .ok (documents.map (Entries.insert read name)))
        first ms s = .ok (ms', t) ∧ I ms' state' := by
  fun_induction gatherEntries key entry first state s generalizing ms with
  | case1 => cases h
  | case2 first state s hn =>
    cases h
    exact ⟨ms, gatherEntries_stop hn, h0⟩
  | case3 => cases h
  | case4 => cases h
  | case5 => cases h
  | case6 => cases h
  | case7 first state s t hn name t' hk value he t'' hc state'' r' hv ih =>
    obtain ⟨j, hj, hI⟩ := hentry ms state h0 name value he t'' state'' r' hv
    obtain ⟨ms', hg, hI'⟩ := ih hI h
    exact ⟨ms', (gatherEntries_next hn hk rfl hc (run_map hj)).trans hg, hI'⟩

end

theorem follows_entries {entry : σ → String → Except Rejection (Reader σ)} {init : σ}
    {finish : σ → Except Complaint α} {documents : Reader Json} {I : Entries Json → σ → Prop}
    (h0 : I [] init)
    (hentry : ∀ ms state, I ms state → ∀ name value, entry state name = .ok value →
      value.Follows documents fun j state' => I (ms.insert name j) state')
    (hfinish : ∀ ms state a, I ms state → finish state = .ok a → S (.object ms) a) :
    (entries quoted entry init finish).Follows (members documents) S := by
  intro s a r hs
  obtain ⟨state, t, hg, hf, hc⟩ := conclude_eq_ok_iff.1 hs
  obtain ⟨ms, hg', hI⟩ := gatherEntries_follows hentry h0 hg
  exact ⟨.object ms, conclude_eq_ok_iff.2 ⟨ms, t, hg', rfl, hc⟩, hfinish ms state a hI hf⟩

section
variable {depth : Nat} {c : Char} {s t : List Char}

theorem run_document_scalar? {reading : Reading Json} (hb : skipBlanks s = c :: t)
    (h : scalar? c t = some reading) : (document depth).run s = reading := by
  cases depth <;> simp only [document, documentWith, begin, hb, h]

theorem run_document_list (hb : skipBlanks s = '[' :: t) :
    (document (depth + 1)).run s = (items (document depth)).run t := by
  have hn : scalar? '[' t = none := rfl
  simp only [document, documentWith, begin, hb, hn]
  rfl

theorem run_document_object (hb : skipBlanks s = '{' :: t) :
    (document (depth + 1)).run s = (members (document depth)).run t := by
  have hn : scalar? '{' t = none := rfl
  simp only [document, documentWith, begin, hb, hn]
  rfl

theorem run_document_skipBlanks (hb : skipBlanks s = c :: t) :
    (document depth).run (c :: t) = (document depth).run s := by
  have hc : skipBlanks (c :: t) = c :: t := by
    rw [← hb]
    exact List.dropWhile_idempotent isBlank s
  cases depth <;> simp only [document, documentWith, begin, hb, hc]

theorem follows_container {wanted : String} {list : Nat → Reader α}
    (h : ∀ d, (list d).Follows (items (document d)) S) :
    (container '[' wanted (inner list depth)).Follows (document depth) S := by
  intro s a r hs
  obtain ⟨c, t, hb, hs⟩ := exists_of_begin (fun _ => rfl) hs
  split at hs
  · rename_i hc
    subst hc
    cases depth with
    | zero => cases hs
    | succ d =>
      obtain ⟨j, hj, hS⟩ := h d t a r hs
      exact ⟨j, (run_document_list hb).trans hj, hS⟩
  · cases hs

theorem follows_eitherContainer {wanted : String} {list object : Nat → Reader α}
    (hlist : ∀ d, (list d).Follows (items (document d)) S)
    (hobject : ∀ d, (object d).Follows (members (document d)) S) :
    (eitherContainer wanted (inner list depth) (inner object depth)).Follows
      (document depth) S := by
  intro s a r hs
  obtain ⟨c, t, hb, hs⟩ := exists_of_begin (fun _ => rfl) hs
  cases depth with
  | zero =>
    split at hs
    · cases hs
    · split at hs <;> cases hs
  | succ d =>
    split at hs
    · rename_i hc
      subst hc
      obtain ⟨j, hj, hS⟩ := hlist d t a r hs
      exact ⟨j, (run_document_list hb).trans hj, hS⟩
    · split at hs
      · rename_i hc
        subst hc
        obtain ⟨j, hj, hS⟩ := hobject d t a r hs
        exact ⟨j, (run_document_object hb).trans hj, hS⟩
      · cases hs

end
end
end Reader

namespace Codec

variable {α : Type} {codec : Codec α}

/-- What is read from a text is what is decoded from the document that stands there. -/
def Faithful (codec : Codec α) : Prop :=
  ∀ depth, (codec.text depth).Follows (Reader.document depth) fun j a => codec.tree j = .ok a

theorem faithful_scalar (wanted : String) (judge : Json → Except Complaint α) (json : α → Json) :
    (scalar wanted judge json).Faithful := by
  intro depth s a r hs
  obtain ⟨c, t, hb, hs⟩ := Reader.exists_of_begin (fun _ => rfl) hs
  split at hs
  · rename_i j u hj
    split at hs
    · rename_i b hb'
      cases hs
      exact ⟨j, Reader.run_document_scalar? hb hj, by simp only [scalar, hb']; rfl⟩
    · cases hs
  · cases hs
  · cases hs

theorem faithful_document : document.Faithful := fun _ _ j _ hs => ⟨j, hs, rfl⟩

/-- A codec that would read null too could not tell its null from none. -/
theorem faithful_optional (h : codec.Faithful) (hnull : ∀ a, codec.tree .null ≠ .ok a) :
    (optional codec).Faithful := by
  intro depth s a r hs
  obtain ⟨c, t, hb, hs⟩ := Reader.exists_of_begin (fun _ => rfl) hs
  split at hs
  · rename_i hc
    subst hc
    obtain ⟨rfl, hw⟩ := Reader.wordFor_eq_ok_iff.1 hs
    refine ⟨.null, ?_, rfl⟩
    exact (Reader.run_document_scalar? hb rfl).trans (Reader.wordFor_eq_ok_iff.2 ⟨rfl, hw⟩)
  · split at hs
    · rename_i b r' hr
      cases hs
      obtain ⟨j, hj, hd⟩ := h depth _ _ _ hr
      refine ⟨j, (Reader.run_document_skipBlanks hb).symm.trans hj, ?_⟩
      cases j with
      | null => exact absurd hd (hnull b)
      | _ => simp only [optional, hd]; rfl
    · cases hs

theorem tree_list_eq_ok_iff {j : Json} {as : List α} :
    (list codec).tree j = .ok as ↔
      ∃ items, j = .array items ∧ List.Forall₂ (fun j a => codec.tree j = .ok a) items as := by
  cases j <;> simp [list, Shape.treeOfItems_eq_ok_iff]

theorem faithful_list (h : codec.Faithful) : (list codec).Faithful := by
  intro depth
  apply Reader.follows_container
  intro d
  refine Reader.follows_elements
    (I := List.Forall₂ fun j a => codec.tree j = .ok a) .nil ?_ ?_
  · rintro js as hjs _ ⟨⟩
    exact Reader.follows_map ((h d).mono fun j a ha => .cons ha hjs)
  · rintro js as _ hjs ⟨⟩
    exact tree_list_eq_ok_iff.2 ⟨js.reverse, rfl, List.rel_reverse hjs⟩

end Codec

namespace RecordCodec

variable {σ : Type} {record : RecordCodec σ}

def FaithfulMember (m : Member σ) : Prop :=
  ∀ depth, (m.text depth).Follows (Reader.document depth) fun j change => m.tree j = .ok change

theorem faithful_member {α : Type} {codec : Codec α} (h : codec.Faithful) (name : String)
    (required : Bool) (put : α → σ → σ) : FaithfulMember (codec.member name required put) := by
  intro depth
  apply Reader.follows_map
  refine (h depth).mono fun j a ha => ?_
  simp only [Codec.member, ha]
  rfl

theorem fromElements_follows (h : ∀ m ∈ record.members, FaithfulMember m) (depth : Nat) :
    (record.fromElements depth).Follows (Reader.items (Reader.document depth))
      fun j a => record.tree j = .ok a := by
  refine Reader.follows_elements
    (I := fun js (state : List (Member σ) × σ) => (∀ m ∈ state.1, FaithfulMember m) ∧
      ∀ rest, record.treeOfItems 0 record.members record.blank (js.reverse ++ rest) =
        record.treeOfItems js.length state.1 state.2 rest)
    ⟨h, fun _ => rfl⟩ ?_ ?_
  · rintro js ⟨left, state⟩ ⟨hleft, hjs⟩ element he
    cases left with
    | nil => cases he
    | cons m left =>
      cases he
      obtain ⟨hm, hleft⟩ := List.forall_mem_cons.1 hleft
      apply Reader.follows_map
      refine (hm depth).mono fun j change hj => ⟨hleft, fun rest => ?_⟩
      rw [List.reverse_cons, List.append_assoc, hjs, List.singleton_append, treeOfItems, hj]
      rfl
  · rintro js ⟨left, state⟩ a ⟨-, hjs⟩ hf
    have ht := hjs []
    rw [List.append_nil, treeOfItems] at ht
    rw [tree, ht]
    dsimp only at hf
    split at hf
    · cases hf
    · rename_i hn
      cases hf
      simp only [hn]

theorem fromEntries_follows (hstrict : record.strict = true)
    (h : ∀ m ∈ record.members, FaithfulMember m) (depth : Nat) :
    (record.fromEntries depth).Follows (Reader.members (Reader.document depth))
      fun j a => record.tree j = .ok a := by
  -- Of what has been read: its names are in the draft, and the rest is decoded from the draft on.
  refine Reader.follows_entries
    (I := fun ms (draft : Draft σ) => (∀ name ∈ Entries.keys ms, name ∈ draft.1) ∧
      ∀ rest, record.treeOfMembers ([], record.blank) (ms ++ rest) =
        record.treeOfMembers draft rest)
    ⟨nofun, fun _ => rfl⟩ ?_ ?_
  · rintro ms draft ⟨hkeys, hms⟩ name value hv
    unfold entry at hv
    split at hv
    · rename_i m hm
      split at hv
      · cases hv
      · rename_i hnew
        cases hv
        have hfresh : name ∉ Entries.keys ms := fun hk =>
          hnew (List.contains_iff_mem.2 (hkeys name hk))
        apply Reader.follows_map
        refine (h m (List.mem_of_find?_eq_some hm) depth).mono fun j change hj => ?_
        refine ⟨fun key hk => ?_, fun rest => ?_⟩
        · rw [Entries.keys_insert, if_neg hfresh, List.mem_append, List.mem_singleton] at hk
          rcases hk with hk | rfl
          · exact List.mem_cons_of_mem _ (hkeys key hk)
          · exact List.mem_cons_self
        · rw [Entries.insert_of_notMem hfresh, List.append_assoc, hms, List.singleton_append,
            treeOfMembers, hm]
          simp only [hj]
    · rw [if_pos hstrict] at hv
      cases hv
  · rintro ms draft a ⟨-, hms⟩ hf
    have ht := hms []
    rw [List.append_nil, treeOfMembers] at ht
    rw [tree, ht]
    simp only [hf]
    rfl

theorem faithful_codec (hstrict : record.strict = true)
    (h : ∀ m ∈ record.members, FaithfulMember m) (json : σ → Json) :
    (record.codec json).Faithful := by
  intro depth
  apply Reader.follows_eitherContainer
  · exact fromElements_follows h
  · exact fromEntries_follows hstrict h

end RecordCodec
end Conformance
