import Conformance.Proofs.Double.WholeNumbers
import Conformance.Proofs.Json.Reread
import Conformance.Proofs.Value.PartialEquivalence

/-!
# Values of documents

The value of a document has the same places as the document, with the value of
each part where the part stands: arrays keep their items in order and objects
their keys. Kinds of values that only hosts build do not occur in it, and neither
does a number that is not finite, so it equals itself. Two documents have equal
values exactly when they are the same up to the order of keys and to numbers that
are equal as binary64 numbers (`Json.SameUpToOrder`).
-/
namespace Conformance

mutual
inductive Json.SameUpToOrder : Json → Json → Prop
  | null : Json.SameUpToOrder .null .null
  | boolean (b : Bool) : Json.SameUpToOrder (.boolean b) (.boolean b)
  | number {m n : Json.Number} (h : m.toDouble.equals n.toDouble = true) :
      Json.SameUpToOrder (.number m) (.number n)
  | string (s : String) : Json.SameUpToOrder (.string s) (.string s)
  | array {js ks : List Json} (each : List.Forall₂ Json.SameUpToOrder js ks) :
      Json.SameUpToOrder (.array js) (.array ks)
  | object {ms ps ns : List (String × Json)} (order : ms.Perm ps)
      (each : List.Forall₂ Json.SameMember ps ns) : Json.SameUpToOrder (.object ms) (.object ns)
inductive Json.SameMember : String × Json → String × Json → Prop
  | mk {key : String} {j k : Json} (h : Json.SameUpToOrder j k) :
      Json.SameMember (key, j) (key, k)
end

namespace Value

section
variable {j k : Json} {members : Entries Json} {key : String}

theorem ofItems_eq (items : List Json) : ofItems items = items.map ofJson := by
  induction items with
  | nil => rfl
  | cons j items ih => rw [ofItems, ih, List.map_cons]

theorem ofMembers_eq (members : Entries Json) :
    ofMembers members = members.map fun m => (m.1, ofJson m.2) := by
  induction members with
  | nil => rfl
  | cons m members ih => rw [ofMembers, ih, List.map_cons]

theorem keys_ofMembers : Entries.keys (ofMembers members) = members.keys := by
  rw [ofMembers_eq, Entries.keys, List.map_map]
  rfl

theorem get?_ofMembers :
    Entries.get? (ofMembers members) key = (members.get? key).map ofJson := by
  induction members with
  | nil => rfl
  | cons m members ih =>
    rw [ofMembers, Entries.get?, Entries.get?, ih]
    split <;> rfl

theorem distinct_ofMembers : Entries.Distinct (ofMembers members) ↔ members.Distinct := by
  rw [Entries.Distinct, keys_ofMembers, Entries.Distinct]

theorem wellFormed_ofJson (hj : j.WellFormed) : (ofJson j).WellFormed := by
  induction j with
  | array items ih =>
    rw [Json.wellFormed_array] at hj
    rw [ofJson, ofItems_eq, WellFormed, wellFormedItems_iff, List.forall_mem_map]
    exact fun j hm => ih j hm (hj j hm)
  | object members ih =>
    rw [Json.wellFormed_object] at hj
    rw [ofJson, WellFormed, distinct_ofMembers, ofMembers_eq, wellFormedMembers_iff,
      List.forall_mem_map]
    exact ⟨hj.1, fun m hm => ih m hm (hj.2 m hm)⟩
  | _ => trivial

theorem at?_ofJson (j : Json) (a : Address) : (ofJson j).at? a = (j.at? a).map ofJson := by
  induction a generalizing j with
  | nil => rfl
  | cons s a ih =>
    cases s with
    | index i =>
      cases j with
      | array items =>
        rw [ofJson, at?, Json.at?, ofItems_eq, List.getElem?_map]
        cases items[i]? with
        | none => rfl
        | some j => exact ih j
      | _ => rfl
    | key name =>
      cases j with
      | object members =>
        rw [ofJson, at?, Json.at?, get?_ofMembers]
        cases Entries.get? members name with
        | none => rfl
        | some j => exact ih j
      | _ => rfl
    | unknown => rfl

theorem wellFormed_of_at? {u v : Value} {a : Address} (hv : v.WellFormed) (h : v.at? a = some u) :
    u.WellFormed := by
  induction a generalizing v with
  | nil => exact Option.some.inj h ▸ hv
  | cons s a ih =>
    cases s with
    | index i =>
      cases v with
      | array items =>
        obtain ⟨w, hw, h⟩ := Option.bind_eq_some_iff.1 h
        exact ih (wellFormedItems_iff.1 hv w (List.mem_of_getElem? hw)) h
      | _ => cases h
    | key name =>
      cases v with
      | object members =>
        obtain ⟨w, hw, h⟩ := Option.bind_eq_some_iff.1 h
        exact ih (wellFormedMembers_iff.1 hv.2 _ (Entries.mem_of_get? hw)) h
      | _ => cases h
    | unknown => cases h

/-- What may stand in the value of a document. -/
def Plain (u : Value) : Prop :=
  u.kind ∉ [Kind.undefined, .bigint, .symbol] ∧ ∀ x, u = number x → x.isFinite = true

theorem plain_ofJson (j : Json) : (ofJson j).Plain := by
  cases j with
  | number n =>
    refine ⟨by simp [ofJson, kind], fun x hx => ?_⟩
    obtain ⟨y, hy⟩ := n.exists_toDouble_eq
    cases hx
    rw [hy]
    rfl
  | _ =>
    refine ⟨by simp [ofJson, kind], ?_⟩
    rintro x ⟨⟩

theorem plain_of_occursIn {u : Value} (h : u.OccursIn (ofJson j)) : u.Plain := by
  obtain ⟨a, h⟩ := h
  rw [at?_ofJson] at h
  obtain ⟨p, -, rfl⟩ := Option.map_eq_some_iff.1 h
  exact plain_ofJson p

theorem equals_self_ofJson (hj : j.WellFormed) : (ofJson j).equals (ofJson j) = true := by
  rw [equals_self_iff (wellFormed_ofJson hj)]
  intro h
  exact Bool.false_ne_true ((plain_of_occursIn h).2 .nan rfl)

theorem sameUpToOrder_object {ms ns : Entries Json} :
    (Json.object ms).SameUpToOrder (.object ns) ↔ Entries.Matched Json.SameUpToOrder ms ns := by
  have hm (m n : String × Json) : Json.SameMember m n ↔ m.1 = n.1 ∧ m.2.SameUpToOrder n.2 := by
    constructor
    · rintro ⟨h⟩
      exact ⟨rfl, h⟩
    · obtain ⟨key, j⟩ := m
      rintro ⟨rfl, h⟩
      exact .mk h
  constructor
  · rintro ⟨⟩
    rename_i order each
    exact ⟨_, order, each.imp fun m n => (hm m n).1⟩
  · rintro ⟨ps, order, each⟩
    exact .object order (each.imp fun m n => (hm m n).2)

theorem equals_array_ofJson {js ks : List Json} :
    (ofJson (.array js)).equals (ofJson (.array ks)) = true ↔
      List.Forall₂ (fun j k => (ofJson j).equals (ofJson k) = true) js ks := by
  rw [ofJson, ofJson, equals_array, ofItems_eq, ofItems_eq, List.forall₂_map_left_iff,
    List.forall₂_map_right_iff]

theorem equals_object_ofJson {ms ns : Entries Json} (hd : ms.Distinct) :
    (ofJson (.object ms)).equals (ofJson (.object ns)) = true ↔
      Entries.Matched (fun j k => (ofJson j).equals (ofJson k) = true) ms ns := by
  rw [ofJson, ofJson, equals_object, Entries.matched_iff_get? hd, ofMembers_eq ms,
    List.forall_mem_map, List.length_map, ofMembers_eq ns, List.length_map, ← ofMembers_eq ns]
  simp only [get?_ofMembers, Option.map_eq_some_iff, exists_exists_and_eq_and]

theorem sameUpToOrder_of_equals (hj : j.WellFormed)
    (h : (ofJson j).equals (ofJson k) = true) : j.SameUpToOrder k := by
  induction j generalizing k with
  | null =>
    cases k with
    | null => exact .null
    | _ => cases h
  | boolean b =>
    cases k with
    | boolean c =>
      obtain rfl : b = c := by simpa [ofJson, equals] using h
      exact .boolean b
    | _ => cases h
  | number n =>
    cases k with
    | number m => exact .number h
    | _ => cases h
  | string s =>
    cases k with
    | string t =>
      obtain rfl : s = t := by simpa [ofJson, equals] using h
      exact .string s
    | _ => cases h
  | array items ih =>
    cases k with
    | array ks =>
      rw [Json.wellFormed_array] at hj
      apply Json.SameUpToOrder.array
      exact forall₂_imp_mem (fun j hm k => ih j hm (hj j hm)) (equals_array_ofJson.1 h)
    | _ => cases h
  | object members ih =>
    cases k with
    | object ns =>
      -- Equal objects have equal values under each key; distinct keys make that a matching.
      rw [Json.wellFormed_object] at hj
      apply sameUpToOrder_object.2
      exact ((equals_object_ofJson hj.1).1 h).mono fun m hm k hjk => ih m hm (hj.2 m hm) hjk
    | _ => cases h

theorem equals_of_sameUpToOrder (hj : j.WellFormed) (h : j.SameUpToOrder k) :
    (ofJson j).equals (ofJson k) = true := by
  induction j generalizing k with
  | array items ih =>
    rw [Json.wellFormed_array] at hj
    cases h with
    | @array _ ks each =>
      apply equals_array_ofJson.2
      exact forall₂_imp_mem (fun j hm k => ih j hm (hj j hm)) each
  | object members ih =>
    rw [Json.wellFormed_object] at hj
    cases k with
    | object ns =>
      apply (equals_object_ofJson hj.1).2
      exact (sameUpToOrder_object.1 h).mono fun m hm k hjk => ih m hm (hj.2 m hm) hjk
    | _ => cases h
  | number n =>
    cases h with
    | number h => exact h
  | _ =>
    cases h
    simp [ofJson, equals]

end

/-- The value of a document has the parts of the document in their places, and nothing that only
hosts build. Values of documents are equal exactly when the documents are the same up to the order
of keys, so each equals itself. -/
theorem ofJson_keeps_documents (j k : Json) (hj : j.WellFormed) :
    (∀ u, u.OccursIn (ofJson j) →
      u.kind ∉ [Kind.undefined, .bigint, .symbol] ∧ ∀ x, u = number x → x.isFinite = true) ∧
    (∀ a, (ofJson j).at? a = (j.at? a).map ofJson) ∧
    (∀ a js, j.at? a = some (.array js) →
      ∃ vs, (ofJson j).at? a = some (array vs) ∧ vs.length = js.length) ∧
    (∀ a ms, j.at? a = some (.object ms) →
      ∃ es, (ofJson j).at? a = some (object es) ∧ Entries.keys es = Entries.keys ms ∧
        (Entries.keys es).Nodup) ∧
    ((ofJson j).equals (ofJson k) = true ↔ j.SameUpToOrder k) ∧
    (ofJson j).equals (ofJson j) = true := by
  refine ⟨fun u => plain_of_occursIn, at?_ofJson j, ?_, ?_, ?_, equals_self_ofJson hj⟩
  · intro a js h
    refine ⟨js.map ofJson, ?_, List.length_map ..⟩
    rw [at?_ofJson, h, Option.map_some, ofJson, ofItems_eq]
  · intro a ms h
    have hm : (ofJson j).at? a = some (object (ofMembers ms)) := by
      rw [at?_ofJson, h, Option.map_some, ofJson]
    exact ⟨ofMembers ms, hm, keys_ofMembers, (wellFormed_of_at? (wellFormed_ofJson hj) hm).1⟩
  · exact ⟨sameUpToOrder_of_equals hj, equals_of_sameUpToOrder hj⟩

def oddNumber : Json :=
  .object [("xs", .array [.number (.float .zero), .null]),
    ("n", .number (.integer 9007199254740993 (by decide) (by decide)))]

def evenNumber : Json :=
  .object [("n", .number (.integer 9007199254740992 (by decide) (by decide))),
    ("xs", .array [.number (.float { Finite.zero with negative := true }), .null])]

theorem ofJson_keeps_oddNumber :
    oddNumber.WellFormed ∧ oddNumber.SameUpToOrder evenNumber ∧
      (ofJson oddNumber).equals (ofJson oddNumber) = true ∧
      (ofJson oddNumber).at? [.key "xs", .index 1] = some null := by
  have hj : oddNumber.WellFormed := by
    simp [oddNumber, Json.WellFormed, Json.WellFormedMembers, Json.WellFormedItems,
      Entries.Distinct, Entries.keys]
  have h : (ofJson oddNumber).equals (ofJson evenNumber) = true := by decide +kernel
  obtain ⟨-, hat, -, -, hsame, hself⟩ := ofJson_keeps_documents oddNumber evenNumber hj
  exact ⟨hj, hsame.1 h, hself, hat _⟩

end Value
end Conformance
