import Conformance.Proofs.Double.WholeNumbers
import Conformance.Proofs.Json.TextLength
import Conformance.Proofs.Shape.Roles
import Conformance.Proofs.Shape.RoundTrip

/-!
# Tidy documents

`Json.tidy` brings a wire document into the form in which documents are written:
members that are not declared are left out, the others are put in the order in
which they are declared, and numbers are written as the binary64 numbers they
stand for. Nothing is decoded on the way.
-/
namespace Conformance

namespace Json

mutual
/-- `spell` says what is written for an object that is read as a wildcard. -/
def tidy (spell : Json → Json) (role : Role) : Json → Json
  | number n => number n.asFloat
  | array items =>
    match role.item? with
    | some item => array (tidyItems spell item items)
    | none => array items
  | object members =>
    match role with
    | .wildcard => spell (object members)
    | role => object ((role.declared members).flatMap fun d => tidyUnder spell d.1 d.2 members)
  | j => j
def tidyItems (spell : Json → Json) (role : Role) : List Json → List Json
  | [] => []
  | j :: js => tidy spell role j :: tidyItems spell role js
def tidyUnder (spell : Json → Json) (name : String) (role : Role) :
    List (String × Json) → List (String × Json)
  | [] => []
  | (k, j) :: ms => if k = name then [(name, tidy spell role j)] else tidyUnder spell name role ms
end

def nameAlone : Json → Json
  | object [(name, _)] => string name
  | j => j

section
variable {spell : Json → Json} {role q : Role} {members : Entries Json} {name : String} {j : Json}

theorem tidyItems_eq (items : List Json) :
    tidyItems spell role items = items.map (tidy spell role) := by
  induction items with
  | nil => rfl
  | cons j items ih => rw [tidyItems, ih, List.map_cons]

theorem tidyUnder_eq :
    tidyUnder spell name role members =
      ((members.get? name).map fun j => (name, tidy spell role j)).toList := by
  induction members with
  | nil => rfl
  | cons m members ih =>
    rw [tidyUnder, Entries.get?]
    by_cases h : m.1 = name
    · simp [h]
    · simp [h, ih]

theorem tidy_array (hq : role.item? = some q) (items : List Json) :
    tidy spell role (array items) = array (items.map (tidy spell q)) := by
  simp only [tidy, hq, tidyItems_eq]

theorem tidy_object (hr : role ≠ .wildcard) :
    tidy spell role (object members) =
      object ((role.present members).map fun p => (p.1, tidy spell p.2.1 p.2.2)) := by
  have hp : (role.present members).map (fun p => (p.1, tidy spell p.2.1 p.2.2)) =
      (role.declared members).flatMap fun d => tidyUnder spell d.1 d.2 members := by
    rw [Role.present, List.map_filterMap, List.filterMap_eq_flatMap_toList]
    simp only [tidyUnder_eq, Option.map_map]
    rfl
  rw [hp]
  cases role with
  | wildcard => exact absurd rfl hr
  | _ =>
    rw [tidy]
    exact fun h => Role.noConfusion h

theorem tidy_tagged {tag : String} (ht : members.get? "tag" = some (.string tag))
    (hd : Role.declaredBy tag = [(name, q)]) (hj : members.get? name = some j) :
    tidy spell .shape (object members) = Shape.tagged tag [(name, tidy spell q j)] := by
  rw [tidy_object (by decide), Role.present, Role.declared_shape ht, hd]
  simp [ht, hj, tidy, Shape.tagged]

end

section
variable {role : Role} {j : Json}

theorem length_nameAlone_le (j : Json) : (nameAlone j).text.length ≤ j.text.length := by
  unfold nameAlone
  split
  · simp only [text, List.length_cons, List.length_append]
    omega
  · exact Nat.le_refl _

theorem length_nameAlone_lt (name : String) (content : Json) :
    (nameAlone (object [(name, content)])).text.length <
      (object [(name, content)]).text.length := by
  simp only [nameAlone, text, List.length_cons, List.length_append]
  omega

theorem length_tidy_le (j : Json) (role : Role) :
    (j.tidy nameAlone role).text.length ≤ (j.tidy id role).text.length := by
  induction j generalizing role with
  | array items ih =>
    cases hq : role.item? with
    | none => simp only [tidy, hq, Nat.le_refl]
    | some q =>
      rw [tidy_array hq, tidy_array hq]
      exact length_text_array_le fun j hj => ih j hj q
  | object members ih =>
    by_cases hr : role = .wildcard
    · subst hr
      simp only [tidy]
      exact length_nameAlone_le _
    · rw [tidy_object hr, tidy_object hr]
      apply length_text_object_le
      intro p hp
      exact ih _ (Entries.mem_of_get? (Role.mem_present.1 hp).2) p.2.1
  | null => simp only [tidy, Nat.le_refl]
  | boolean b => simp only [tidy, Nat.le_refl]
  | number n => simp only [tidy, Nat.le_refl]
  | string s => simp only [tidy, Nat.le_refl]

theorem length_tidy_lt {name : String} {content : Json}
    (h : (object [(name, content)]).PartOf .wildcard j role) :
    (j.tidy nameAlone role).text.length < (j.tidy id role).text.length := by
  induction h with
  | self =>
    simp only [tidy]
    exact length_nameAlone_lt name content
  | @member members role q name j hd hj _ ih =>
    have hr : role ≠ .wildcard := by
      intro hr
      subst hr
      cases hd
    rw [tidy_object hr, tidy_object hr]
    exact length_text_object_lt (fun p _ => length_tidy_le p.2.2 p.2.1)
      ⟨(name, q, j), Role.mem_present.2 ⟨hd, hj⟩, ih⟩
  | @item items role q j hq hm _ ih =>
    rw [tidy_array hq, tidy_array hq]
    exact length_text_array_lt (fun j _ => length_tidy_le j q) ⟨j, hm, ih⟩

theorem tidy_congr {spell spell' : Json → Json}
    (h : ∀ members, ¬ (object members).PartOf .wildcard j role) :
    j.tidy spell role = j.tidy spell' role := by
  induction j generalizing role with
  | array items ih =>
    cases hq : role.item? with
    | none => simp only [tidy, hq]
    | some q =>
      have hj : ∀ j ∈ items, j.tidy spell q = j.tidy spell' q :=
        fun j hj => ih j hj fun members hp => h members (.item hq hj hp)
      rw [tidy_array hq, tidy_array hq, List.map_congr_left hj]
  | object members ih =>
    by_cases hr : role = .wildcard
    · subst hr
      exact absurd .self (h members)
    · rw [tidy_object hr, tidy_object hr]
      congr 1
      apply List.map_congr_left
      intro p hp
      obtain ⟨hd, hj⟩ := Role.mem_present.1 hp
      rw [ih _ (Entries.mem_of_get? hj) fun members hp => h members (.member hd hj hp)]
  | null => simp only [tidy]
  | boolean b => simp only [tidy]
  | number n => simp only [tidy]
  | string s => simp only [tidy]

end

end Json

theorem Primitive.tidy_of_spells {j : Json} {kind : Primitive} (h : j.SpellsPrimitive kind)
    (spell : Json → Json) : j.tidy spell .primitive = kind.document := by
  cases h with
  | null => rfl
  | keyword _ hk =>
    cases kind
    · exact absurd rfl hk
    all_goals rfl

theorem Literal.tidy_of_spells {j : Json} {value : Literal} (h : j.SpellsLiteral value)
    (spell : Json → Json) : j.tidy spell .literal = value.document := by
  cases h with
  | boolean b => rfl
  | number n =>
    obtain ⟨x, hx⟩ := n.exists_toDouble_eq
    rw [hx, Json.tidy, Json.Number.asFloat, hx]
    rfl
  | string s => rfl

theorem Wildcard.tidy_of_spells {j : Json} {kind : Wildcard} (h : j.SpellsWildcard kind) :
    j.tidy Json.nameAlone .wildcard = .string kind.keyword := by
  cases h with
  | name => rfl
  | object => rfl

namespace Shape

def fieldDocument (f : Field Shape) : Json :=
  .object [("key", .string f.key), ("value", f.value.document),
    ("isOptional", .boolean f.optional)]

theorem documents_eq_map (ts : List Shape) : documents ts = ts.map document := by
  induction ts with
  | nil => rfl
  | cons t ts ih => rw [documents, ih, List.map_cons]

theorem fieldDocuments_eq_map (fs : List (Field Shape)) :
    fieldDocuments fs = fs.map fieldDocument := by
  induction fs with
  | nil => rfl
  | cons f fs ih => rw [fieldDocuments, ih, List.map_cons, fieldDocument]

theorem tidy_of_describesField {j : Json} {f : Field Shape}
    (ih : ∀ v : Json, v.Describes f.value → v.tidy Json.nameAlone .shape = f.value.document)
    (h : j.DescribesField f) : j.tidy Json.nameAlone .field = fieldDocument f := by
  cases h with
  | mk hk hv hd ho =>
    rw [Json.tidy_object (by decide), Role.present, Role.declared]
    simp [hk, hv, ho, ih _ hd, Json.tidy, fieldDocument]

theorem tidy_of_describes {j : Json} {t : Shape} (h : j.Describes t) :
    j.tidy Json.nameAlone .shape = t.document := by
  induction t generalizing j with
  | record fields ih =>
    cases h with
    | record ht hl each _ =>
      have hf : ∀ f ∈ fields, ∀ j : Json, j.DescribesField f →
          j.tidy Json.nameAlone .field = fieldDocument f :=
        fun f hm j => tidy_of_describesField fun v => @ih f hm v
      rw [Json.tidy_tagged ht rfl hl, Json.tidy_array rfl, document, fieldDocuments_eq_map,
        map_eq_map_of_forall₂ hf each]
  | tuple elements ih =>
    cases h with
    | tuple ht hl each =>
      rw [Json.tidy_tagged ht rfl hl, Json.tidy_array rfl, document, documents_eq_map,
        map_eq_map_of_forall₂ (fun t hm j => @ih t hm j) each]
  | array element ih =>
    cases h with
    | array ht hj hd => rw [Json.tidy_tagged ht rfl hj, ih hd, document]
  | union members ih =>
    cases h with
    | union ht hl each =>
      rw [Json.tidy_tagged ht rfl hl, Json.tidy_array rfl, document, documents_eq_map,
        map_eq_map_of_forall₂ (fun t hm j => @ih t hm j) each]
  | primitive kind =>
    cases h with
    | primitive ht hj hs =>
      rw [Json.tidy_tagged ht rfl hj, Primitive.tidy_of_spells hs, document]
  | literal value =>
    cases h with
    | literal ht hj hs => rw [Json.tidy_tagged ht rfl hj, Literal.tidy_of_spells hs, document]
  | other kind =>
    cases h with
    | other ht hj hs => rw [Json.tidy_tagged ht rfl hj, Wildcard.tidy_of_spells hs, document]

/-- A document that decodes is tidied to the document that is written for its shape, but for
wildcards that are given as objects: these are written by name. So the text that is written is that
of the document tidied as it stands exactly when there are none of them. -/
theorem wireText_of_decode {j : Json} {t : Shape} (h : decode j = .ok t) :
    t.wireText = .ok (j.tidy Json.nameAlone .shape).compact ∧
      (t.wireText = .ok (j.tidy id .shape).compact ↔
        ∀ members, ¬ (Json.object members).PartOf .wildcard j .shape) := by
  have hd : j.Describes t := ofJson_eq_ok_iff_describes.1 (decode_eq_ok_iff.1 h)
  have hw : t.wireText = .ok (j.tidy Json.nameAlone .shape).compact :=
    wireText_eq_ok_iff.2 ⟨by rw [tidy_of_describes hd], (spelled_of_describes hd).2⟩
  refine ⟨hw, ?_⟩
  rw [hw, Except.ok.injEq]
  constructor
  · intro he members hp
    obtain ⟨kind, hs⟩ := Role.accepts_of_partOf hp ⟨t, hd⟩
    cases hs
    have hl := Json.length_tidy_lt hp
    have ht := congrArg (fun s => s.toList.length) he
    simp only [Json.compact, String.toList_ofList] at ht
    omega
  · intro hn
    rw [Json.tidy_congr hn]

def untidyUnion : Json :=
  .object [("note", .null),
    ("types", .array [
      .object [("value", .number (.integer 5 (by decide) (by decide))),
        ("tag", .string "literal")],
      .object [("type", .object [("any", .null)]), ("tag", .string "other")]]),
    ("tag", .string "union")]

theorem wireText_untidyUnion :
    decode untidyUnion = .ok (.union [.literal (.number (.ofInt 5)), .other .any]) ∧
      (union [.literal (.number (.ofInt 5)), .other .any]).wireText =
        .ok (untidyUnion.tidy Json.nameAlone .shape).compact ∧
      ((union [.literal (.number (.ofInt 5)), .other .any]).wireText =
          .ok (untidyUnion.tidy id .shape).compact ↔
        ∀ members, ¬ (Json.object members).PartOf .wildcard untidyUnion .shape) :=
  ⟨rfl, wireText_of_decode rfl⟩

def wildcardObject : Json :=
  .object [("tag", .string "other"), ("type", .object [("unknown", .null)])]

/-- Two spellings of one type: the object is accepted, tidy as it stands, and not what is
written. -/
theorem wildcardObject_not_written :
    decode wildcardObject = .ok (.other .unknown) ∧
      wildcardObject.tidy id .shape = wildcardObject ∧
      (other .unknown).wireText ≠ .ok wildcardObject.compact := by
  refine ⟨rfl, rfl, ?_⟩
  decide

end Shape
end Conformance
