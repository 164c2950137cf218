import Conformance.Json.Reader.Document
import Conformance.Proofs.Json.Reread

/-!
# What readers yield

`Reader.Yields` says that whatever a reader reads has some property; each
combinator of readers hands such a property on. A loop yields what its state
keeps. So every document that is read from text has no key twice in an object,
and its containers are nested no deeper than the reader goes.
-/
namespace Conformance

namespace Entries

variable {α : Type}

theorem mem_insert {es : Entries α} {key : String} {a : α} {e : String × α}
    (h : e ∈ es.insert key a) : e = (key, a) ∨ e ∈ es := by
  induction es with
  | nil => exact .inl (List.mem_singleton.1 h)
  | cons e' es ih =>
    obtain ⟨k, b⟩ := e'
    rw [insert] at h
    by_cases hk : k = key
    · rw [if_pos hk, hk] at h
      rcases List.mem_cons.1 h with rfl | h
      · exact .inl rfl
      · exact .inr (List.mem_cons_of_mem _ h)
    · rw [if_neg hk] at h
      rcases List.mem_cons.1 h with rfl | h
      · exact .inr List.mem_cons_self
      · rcases ih h with h | h
        · exact .inl h
        · exact .inr (List.mem_cons_of_mem _ h)

end Entries

namespace Json

theorem depthOfItems_le_iff {js : List Json} {d : Nat} :
    depthOfItems js ≤ d ↔ ∀ j ∈ js, j.depth ≤ d := by
  induction js with
  | nil => simp [depthOfItems]
  | cons j js ih => simp [depthOfItems, ih]

theorem depthOfMembers_le_iff {ms : List (String × Json)} {d : Nat} :
    depthOfMembers ms ≤ d ↔ ∀ m ∈ ms, m.2.depth ≤ d := by
  induction ms with
  | nil => simp [depthOfMembers]
  | cons m ms ih => simp [depthOfMembers, ih]

/-- A document as a reader that goes to the given depth may give it. -/
structure Readable (depth : Nat) (j : Json) : Prop where
  wellFormed : j.WellFormed
  shallow : j.depth ≤ depth

section
variable {depth : Nat}

theorem Readable.mono {depth' : Nat} {j : Json} (h : j.Readable depth) (hd : depth ≤ depth') :
    j.Readable depth' := ⟨h.wellFormed, h.shallow.trans hd⟩

theorem readable_array {items : List Json} (h : ∀ j ∈ items, j.Readable depth) :
    (array items).Readable (depth + 1) := by
  refine ⟨wellFormed_array.2 fun j hj => (h j hj).wellFormed, ?_⟩
  apply Nat.succ_le_succ
  exact depthOfItems_le_iff.2 fun j hj => (h j hj).shallow

theorem readable_object {members : Entries Json} (hd : members.Distinct)
    (h : ∀ m ∈ members, m.2.Readable depth) : (object members).Readable (depth + 1) := by
  refine ⟨wellFormed_object.2 ⟨hd, fun m hm => (h m hm).wellFormed⟩, ?_⟩
  apply Nat.succ_le_succ
  exact depthOfMembers_le_iff.2 fun m hm => (h m hm).shallow

end
end Json

namespace Reader

section
variable {α β σ : Type} {P : α → Prop} {Q : β → Prop} {I : σ → Prop}

def Yields (reader : Reader α) (P : α → Prop) : Prop :=
  ∀ s a r, reader.run s = .ok (a, r) → P a

theorem Yields.mono {reader : Reader α} {P' : α → Prop} (h : reader.Yields P)
    (hP : ∀ a, P a → P' a) : reader.Yields P' := by
  intro s a r hs
  exact hP a (h s a r hs)

theorem yields_true (reader : Reader α) : reader.Yields fun _ => True := fun _ _ _ _ => trivial

theorem run_map_eq_ok {f : α → β} {reader : Reader α} {s r : List Char} {b : β}
    (h : (reader.map f).run s = .ok (b, r)) : ∃ a, reader.run s = .ok (a, r) ∧ f a = b := by
  simp only [map] at h
  split at h
  · rename_i a _ ha
    cases h
    exact ⟨a, ha, rfl⟩
  · cases h

theorem yields_map {f : α → β} {reader : Reader α} (h : reader.Yields fun a => Q (f a)) :
    (reader.map f).Yields Q := by
  intro s b r hs
  obtain ⟨a, ha, rfl⟩ := run_map_eq_ok hs
  exact h s a r ha

theorem exists_of_begin {reader : Reader α} {f : Char → List Char → Reading α}
    (hrun : ∀ s, reader.run s =
      match skipBlanks s with
      | [] => .error (.next .endOfValue [])
      | c :: cs => f c cs)
    {s r : List Char} {a : α} (h : reader.run s = .ok (a, r)) :
    ∃ c t, skipBlanks s = c :: t ∧ f c t = .ok (a, r) := by
  rw [hrun] at h
  split at h
  · cases h
  · rename_i c t hc
    exact ⟨c, t, hc, h⟩

theorem yields_begin {reader : Reader α} {f : Char → List Char → Reading α}
    (hrun : ∀ s, reader.run s =
      match skipBlanks s with
      | [] => .error (.next .endOfValue [])
      | c :: cs => f c cs)
    (h : ∀ c s a r, f c s = .ok (a, r) → P a) : reader.Yields P := by
  intro s a r hs
  obtain ⟨c, t, -, hf⟩ := exists_of_begin hrun hs
  exact h c t a r hf

theorem yields_enter {body : Option (Reader α)} (h : ∀ reader ∈ body, reader.Yields P) {c : Char}
    {s r : List Char} {a : α} (hs : enter body c s = .ok (a, r)) : P a := by
  unfold enter at hs
  split at hs
  · cases hs
  · rename_i reader
    exact h reader rfl s a r hs

theorem conclude_eq_ok_iff {close : List Char → Option Flaw × List Char}
    {finish : σ → Except Complaint α} {gathered : Reading σ} {a : α} {r : List Char} :
    conclude close finish gathered = .ok (a, r) ↔
      ∃ state s, gathered = .ok (state, s) ∧ finish state = .ok a ∧ close s = (none, r) := by
  constructor
  · intro h
    unfold conclude at h
    split at h
    · cases h
    · rename_i state s
      split at h
      · cases h
      · rename_i hf hc
        cases h
        exact ⟨state, s, rfl, hf, hc⟩
      · cases h
  · intro h
    obtain ⟨state, s, rfl, hf, hc⟩ := h
    simp only [conclude, hf, hc]

theorem inv_of_gatherElements {step : σ → Option (Reader σ)}
    (hstep : ∀ state, I state → ∀ element ∈ step state, element.Yields I) {i : Nat}
    {state state' : σ} {s r : List Char} (h0 : I state)
    (h : gatherElements step i state s = .ok (state', r)) : I state' := by
  fun_induction gatherElements step i state s with
  | case1 =>
    cases h
    exact h0
  | case2 => cases h
  | case3 =>
    cases h
    exact h0
  | case4 => cases h
  | case5 i state s element hs t hn state'' r' he ih =>
    exact ih (hstep state h0 element hs t state'' r' he) h

theorem yields_elements {step : σ → Option (Reader σ)} {init : σ}
    {finish : σ → Except Complaint α} (h0 : I init)
    (hstep : ∀ state, I state → ∀ element ∈ step state, element.Yields I)
    (hfinish : ∀ state a, I state → finish state = .ok a → P a) :
    (elements step init finish).Yields P := by
  intro s a r hs
  obtain ⟨state, t, hg, hf, -⟩ := conclude_eq_ok_iff.1 hs
  exact hfinish state a (inv_of_gatherElements hstep h0 hg) hf

theorem yields_listOf {element : Reader α} (h : element.Yields P) :
    (listOf element).Yields fun as => ∀ a ∈ as, P a := by
  refine yields_elements (I := fun read : List α => ∀ a ∈ read, P a) (List.forall_mem_nil _)
    ?_ ?_
  · rintro read hread _ ⟨⟩
    apply yields_map
    exact h.mono fun a ha => List.forall_mem_cons.2 ⟨ha, hread⟩
  · rintro read _ hread ⟨⟩ a ha
    exact hread a (List.mem_reverse.1 ha)

theorem inv_of_gatherEntries {key : Reader String}
    {entry : σ → String → Except Rejection (Reader σ)}
    (hentry : ∀ state, I state → ∀ name value, entry state name = .ok value → value.Yields I)
    {first : Bool} {state state' : σ} {s r : List Char} (h0 : I state)
    (h : gatherEntries key entry first state s = .ok (state', r)) : I state' := by
  fun_induction gatherEntries key entry first state s with
  | case1 => cases h
  | case2 =>
    cases h
    exact h0
  | case3 => cases h
  | case4 => cases h
  | case5 => cases h
  | case6 => cases h
  | case7 first state s t hn name t' hk value he t'' hc state'' r' hv ih =>
    exact ih (hentry state h0 name value he t'' state'' r' hv) h

theorem yields_entries {key : Reader String} {entry : σ → String → Except Rejection (Reader σ)}
    {init : σ} {finish : σ → Except Complaint α} (h0 : I init)
    (hentry : ∀ state, I state → ∀ name value, entry state name = .ok value → value.Yields I)
    (hfinish : ∀ state a, I state → finish state = .ok a → P a) :
    (entries key entry init finish).Yields P := by
  intro s a r hs
  obtain ⟨state, t, hg, hf, -⟩ := conclude_eq_ok_iff.1 hs
  exact hfinish state a (inv_of_gatherEntries hentry h0 hg) hf

end

section
variable {depth : Nat}

theorem wordFor_eq_ok_iff {α : Type} {a b : α} {ws s r : List Char} :
    wordFor a ws s = .ok (b, r) ↔ a = b ∧ word ws s = .ok r := by
  unfold wordFor
  cases word ws s <;> simp

theorem readable_of_scalar? {c : Char} {s r : List Char} {j : Json}
    (h : scalar? c s = some (.ok (j, r))) : j.Readable depth := by
  unfold scalar? at h
  split at h
  · rw [← (wordFor_eq_ok_iff.1 (Option.some.inj h)).1]
    exact ⟨trivial, Nat.zero_le depth⟩
  split at h
  · rw [← (wordFor_eq_ok_iff.1 (Option.some.inj h)).1]
    exact ⟨trivial, Nat.zero_le depth⟩
  split at h
  · rw [← (wordFor_eq_ok_iff.1 (Option.some.inj h)).1]
    exact ⟨trivial, Nat.zero_le depth⟩
  split at h
  · have h := Option.some.inj h
    split at h
    · cases h
      exact ⟨trivial, Nat.zero_le depth⟩
    · cases h
  split at h
  · have h := Option.some.inj h
    split at h
    · cases h
      exact ⟨trivial, Nat.zero_le depth⟩
    · cases h
  · cases h

theorem yields_items {inner : Reader Json} (h : inner.Yields (Json.Readable depth)) :
    (items inner).Yields (Json.Readable (depth + 1)) := by
  apply yields_map
  exact (yields_listOf h).mono fun js => Json.readable_array

theorem yields_members {inner : Reader Json} (h : inner.Yields (Json.Readable depth)) :
    (members inner).Yields (Json.Readable (depth + 1)) := by
  refine yields_entries
    (I := fun ms : Entries Json => ms.Distinct ∧ ∀ m ∈ ms, m.2.Readable depth)
    ⟨List.nodup_nil, List.forall_mem_nil _⟩ ?_ ?_
  · rintro ms ⟨hd, hms⟩ name _ ⟨⟩
    apply yields_map
    refine h.mono fun j hj => ⟨Entries.distinct_insert hd name j, ?_⟩
    intro m hm
    rcases Entries.mem_insert hm with rfl | hm
    · exact hj
    · exact hms m hm
  · rintro ms _ ⟨hd, hms⟩ ⟨⟩
    exact Json.readable_object hd hms

theorem yields_documentWith {inner : Option (Reader Json)}
    (hlist : ∀ reader ∈ inner.map items, reader.Yields (Json.Readable depth))
    (hobject : ∀ reader ∈ inner.map members, reader.Yields (Json.Readable depth)) :
    (documentWith inner).Yields (Json.Readable depth) := by
  refine yields_begin (fun _ => rfl) fun c s j r h => ?_
  split at h
  · rename_i hs
    exact readable_of_scalar? (h ▸ hs)
  split at h
  · exact yields_enter hlist h
  split at h
  · exact yields_enter hobject h
  · cases h

theorem yields_document (depth : Nat) : (document depth).Yields (Json.Readable depth) := by
  induction depth with
  | zero =>
    apply yields_documentWith
    · exact nofun
    · exact nofun
  | succ depth ih =>
    apply yields_documentWith
    · rintro _ ⟨⟩
      exact yields_items ih
    · rintro _ ⟨⟩
      exact yields_members ih

end

theorem yields_of_runToEnd {α : Type} {reader : Reader α} {P : α → Prop} (h : reader.Yields P)
    {s : List Char} {a : α} (hs : reader.runToEnd s = .ok a) : P a := by
  unfold runToEnd at hs
  split at hs
  · cases hs
  · rename_i a' r hr
    split at hs
    · cases hs
    · cases hs
      exact h s a r hr

end Reader

theorem Json.readable_of_ofText {s : String} {j : Json} (h : Json.ofText s = .ok j) :
    j.Readable Reader.depthLimit :=
  Reader.yields_of_runToEnd (Reader.yields_document Reader.depthLimit) h

end Conformance
