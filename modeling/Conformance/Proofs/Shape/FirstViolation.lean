import Conformance.Proofs.Json.Reread
import Conformance.Proofs.Shape.Roles

/-!
# The first violation of a document

A document that is not a wire document may be wrong in many places, and one
address is reported. `Json.FirstViolation j role a` says that `a` is the address
of the first place where `j` is not what its role wants. Members are gone through
in the order in which they are declared and items in the order in which they
stand; what comes before the place is well-formed, and keys of fields that come
twice are looked for only when all fields are well-formed. The main statement is
that a document which does not decode is refused at its first violation.
-/
namespace Conformance

def Role.isLeaf : Role → Bool
  | tag | key | mark | primitive | literal | wildcard => true
  | shape | shapes | field | fields => false

def Role.Met (members : Entries Json) (d : String × Role) : Prop :=
  ∃ j, members.get? d.1 = some j ∧ d.2.Accepts j

/-- The field at `i` is the first one whose key an earlier field has. -/
def FirstRepeated (fields : List (Field Shape)) (i : Nat) : Prop :=
  ∃ before f after, fields = before ++ f :: after ∧ before.length = i ∧
    (before.map Field.key).Nodup ∧ f.key ∈ before.map Field.key

/-- A member that is missing is blamed on the object that lacks it, anything else on the part that
is wrong. -/
inductive Json.FirstViolation : Json → Role → Address → Prop
  | notObject {j : Json} {role : Role} (hr : role = .shape ∨ role = .field)
      (h : ∀ members, j ≠ .object members) : FirstViolation j role []
  | missing {members : Entries Json} {role q : Role} {name : String}
      {before after : List (String × Role)}
      (hd : role.declared members = before ++ (name, q) :: after)
      (met : ∀ d ∈ before, Role.Met members d) (absent : members.get? name = none) :
      FirstViolation (.object members) role []
  | member {members : Entries Json} {role q : Role} {name : String}
      {before after : List (String × Role)} {u : Json} {a : Address}
      (hd : role.declared members = before ++ (name, q) :: after)
      (met : ∀ d ∈ before, Role.Met members d) (present : members.get? name = some u)
      (below : FirstViolation u q a) : FirstViolation (.object members) role (.key name :: a)
  | repeatedKey {members : Entries Json} {items : List Json} {fields : List (Field Shape)}
      {i : Nat} (tag : members.get? "tag" = some (.string "record"))
      (list : members.get? "fields" = some (.array items))
      (each : List.Forall₂ Json.DescribesField items fields) (h : FirstRepeated fields i) :
      FirstViolation (.object members) .shape [.key "fields", .index i, .key "key"]
  | notArray {j : Json} {role q : Role} (hq : role.item? = some q)
      (h : ∀ items, j ≠ .array items) : FirstViolation j role []
  | item {role q : Role} {before after : List Json} {u : Json} {a : Address}
      (hq : role.item? = some q) (met : ∀ j ∈ before, q.Accepts j)
      (below : FirstViolation u q a) :
      FirstViolation (.array (before ++ u :: after)) role (.index before.length :: a)
  | leaf {j : Json} {role : Role} (hr : role.isLeaf = true) (h : ¬ role.Accepts j)
      (named : ∀ (kind : Wildcard) (content : Json), role = .wildcard →
        j ≠ .object [(kind.keyword, content)]) : FirstViolation j role []
  | content {kind : Wildcard} {content : Json} (h : content ≠ .null) :
      FirstViolation (.object [(kind.keyword, content)]) .wildcard [.key kind.keyword]

namespace Shape

theorem fieldOf_iff_describesField {j : Json} {f : Field Shape} :
    fieldOf j = .ok f ↔ j.DescribesField f :=
  fieldOf_eq_ok_iff_describesField fun _ => ofJson_eq_ok_iff_describes

theorem listOf_iff {α : Type} {read : Json → Except Rejection α} {j : Json} :
    (∃ as, listOf read j = .ok as) ↔
      ∃ items, j = .array items ∧ ∀ i ∈ items, ∃ a, read i = .ok a := by
  simp only [listOf_eq_ok_iff, ← exists_forall₂_iff]
  rw [exists_comm]
  simp only [exists_and_left]

section
variable {α β : Type} {read : Json → Except Rejection α} {members : Entries Json} {key : String}

def refusedAt (x : Except Rejection α) : Option Address :=
  match x with
  | .ok _ => none
  | .error r => some r.address

theorem refusedAt_eq_none_iff {x : Except Rejection α} :
    refusedAt x = none ↔ ∃ a, x = .ok a := by
  cases x <;> simp [refusedAt]

theorem refusedAt_eq_some_iff {x : Except Rejection α} {a : Address} :
    refusedAt x = some a ↔ ∃ r, x = .error r ∧ r.address = a := by
  cases x <;> simp [refusedAt]

theorem refusedAt_map (f : α → β) (x : Except Rejection α) :
    refusedAt (x.map f) = refusedAt x := by
  cases x <;> rfl

theorem refusedAt_bind (f : α → Except Rejection β) (x : Except Rejection α) :
    refusedAt (x >>= f) = (refusedAt x).or (x.toOption.bind fun a => refusedAt (f a)) := by
  cases x <;> rfl

theorem refusedAt_leaf :
    refusedAt (leaf read members key) =
      match members.get? key with
      | none => some []
      | some j => (refusedAt (read j)).map (.key key :: ·) := by
  rw [leaf, member]
  cases members.get? key with
  | none => rfl
  | some j => cases h : read j <;> simp [refusedAt, h, mapError_ok, mapError_error, Rejection.below]

theorem root_of_refusedAt_mapError {x : Except Complaint α} {a : Address}
    (h : refusedAt (x.mapError (⟨[], ·⟩)) = some a) : a = [] := by
  cases x with
  | ok _ => cases h
  | error c =>
    cases h
    rfl

theorem refusedAt_treeOfItems {i : Nat} {js : List Json} {a : Address} :
    refusedAt (Codec.treeOfItems read i js) = some a ↔
      ∃ before u after b, js = before ++ u :: after ∧
        (∀ j ∈ before, refusedAt (read j) = none) ∧ refusedAt (read u) = some b ∧
        a = .index (i + before.length) :: b := by
  simp only [refusedAt_eq_none_iff, refusedAt_eq_some_iff, treeOfItems_eq_error_iff]
  constructor
  · intro h
    obtain ⟨_, ⟨before, u, after, e, hjs, met, hu, rfl⟩, rfl⟩ := h
    exact ⟨before, u, after, e.address, hjs, met, ⟨e, hu, rfl⟩, rfl⟩
  · intro h
    obtain ⟨before, u, after, _, hjs, met, ⟨e, hu, rfl⟩, rfl⟩ := h
    exact ⟨_, ⟨before, u, after, e, hjs, met, hu, rfl⟩, rfl⟩

theorem refusedAt_listOf_of_ne {j : Json} (h : ∀ items, j ≠ .array items) :
    refusedAt (listOf read j) = some [] := by
  cases j with
  | array items => exact absurd rfl (h items)
  | _ => rfl

end

theorem refusedAt_bind_const {α β : Type} {x : Except Rejection α} {f : α → Except Rejection β}
    {r : Option Address} (h : ∀ a, refusedAt (f a) = r) :
    refusedAt (x >>= f) = (refusedAt x).or r := by
  cases x with
  | error _ => rfl
  | ok a => exact (h a).trans Option.none_or.symm

end Shape

open Shape

namespace Role

/-- Where a document is refused that is read in a role. -/
def refusal (role : Role) (j : Json) : Option Address :=
  match role with
  | shape => refusedAt (ofJson j)
  | shapes => refusedAt (listOf ofJson j)
  | field => refusedAt (fieldOf j)
  | fields => refusedAt (listOf fieldOf j)
  | tag => refusedAt (Tag.ofJson j)
  | key => refusedAt (scalar Json.asString j)
  | mark => refusedAt (scalar Json.asBoolean j)
  | primitive => refusedAt (scalar Primitive.ofJson j)
  | literal => refusedAt (scalar Literal.ofJson j)
  | wildcard => refusedAt (Wildcard.ofJson j)

def blame (members : Entries Json) (d : String × Role) : Option Address :=
  match members.get? d.1 with
  | none => some []
  | some j => (d.2.refusal j).map (.key d.1 :: ·)

section
variable {role q : Role} {members : Entries Json} {j u : Json} {a : Address} {name : String}

theorem refusal_eq_none_iff : role.refusal j = none ↔ role.Accepts j := by
  cases role <;>
    simp only [refusal, Accepts, refusedAt_eq_none_iff, listOf_iff, ofJson_eq_ok_iff_describes,
      fieldOf_iff_describesField, Tag.ofJson_eq_ok_iff, scalar, mapError_eq_ok,
      Json.asString_eq_ok_iff, Json.asBoolean_eq_ok_iff, Primitive.ofJson_eq_ok_iff,
      Literal.ofJson_eq_ok_iff, Wildcard.ofJson_eq_ok_iff]

theorem blame_eq_none_iff {d : String × Role} : blame members d = none ↔ Met members d := by
  rw [blame, Met]
  cases members.get? d.1 with
  | none => simp
  | some j => simp [refusal_eq_none_iff]

theorem blame_eq_some_iff :
    blame members (name, q) = some a ↔
      (members.get? name = none ∧ a = []) ∨
        ∃ u b, members.get? name = some u ∧ q.refusal u = some b ∧ a = .key name :: b := by
  rw [blame]
  cases members.get? name with
  | none => simp [eq_comm]
  | some j => simp [eq_comm]

def firstBlamed (role : Role) (members : Entries Json) : Option Address :=
  (role.declared members).findSome? (blame members)

theorem firstBlamed_eq_some_iff :
    role.firstBlamed members = some a ↔
      ∃ before d after, role.declared members = before ++ d :: after ∧
        blame members d = some a ∧ ∀ e ∈ before, Met members e := by
  simp only [firstBlamed, List.findSome?_eq_some_iff, blame_eq_none_iff]

theorem refusedAt_leaf_of {α : Type} {read : Json → Except Rejection α}
    (h : ∀ j, refusedAt (read j) = q.refusal j) :
    refusedAt (leaf read members name) = blame members (name, q) := by
  rw [refusedAt_leaf, blame]
  simp only [h]

theorem findSome?_blame_cons {d : String × Role} {ds : List (String × Role)} :
    (d :: ds).findSome? (blame members) = (blame members d).or (ds.findSome? (blame members)) := by
  rw [List.findSome?_cons]
  cases blame members d <;> rfl

theorem refusal_field_object :
    field.refusal (.object members) = field.firstBlamed members := by
  have hk : refusedAt (leaf (scalar Json.asString) members "key") = blame members ("key", key) :=
    refusedAt_leaf_of fun _ => rfl
  have hv : refusedAt (leaf ofJson members "value") = blame members ("value", shape) :=
    refusedAt_leaf_of fun _ => rfl
  have ho : refusedAt (leaf (scalar Json.asBoolean) members "isOptional") =
      blame members ("isOptional", mark) := refusedAt_leaf_of fun _ => rfl
  rw [refusal, fieldOf_object, firstBlamed, declared]
  simp only [findSome?_blame_cons, List.findSome?_nil, Option.or_none, ← hk, ← hv, ← ho]
  apply refusedAt_bind_const
  intro k
  apply refusedAt_bind_const
  intro v
  exact refusedAt_map _ _

theorem firstBlamed_shape_of_tag {form : Tag}
    (ht : members.get? "tag" = some (.string form.name)) :
    shape.firstBlamed members = (declaredBy form.name).findSome? (blame members) := by
  have ha : Met members ("tag", tag) := ⟨_, ht, form, rfl⟩
  rw [firstBlamed, declared_shape ht, findSome?_blame_cons, blame_eq_none_iff.2 ha,
    Option.none_or]

theorem firstBlamed_shape_of_error {r : Rejection}
    (h : leaf Tag.ofJson members "tag" = .error r) :
    shape.firstBlamed members = some r.address := by
  have ht : refusedAt (leaf Tag.ofJson members "tag") = blame members ("tag", tag) :=
    refusedAt_leaf_of fun _ => rfl
  rw [firstBlamed, declared, findSome?_blame_cons, ← ht, h]
  rfl

theorem refusedAt_ofTagged {form : Tag} (h : form ≠ .record) :
    refusedAt (ofTagged members form) = (declaredBy form.name).findSome? (blame members) := by
  have hone {n : String} {r : Role} (hd : declaredBy form.name = [(n, r)]) :
      (declaredBy form.name).findSome? (blame members) = blame members (n, r) := by
    rw [hd, findSome?_blame_cons, List.findSome?_nil, Option.or_none]
  cases form with
  | record => exact absurd rfl h
  | _ =>
    rw [hone rfl, ofTagged, refusedAt_map]
    exact refusedAt_leaf_of fun _ => rfl

theorem refusedAt_ofTagged_record :
    refusedAt (ofTagged members .record) = some a ↔
      blame members ("fields", fields) = some a ∨
        ∃ fs, leaf (listOf fieldOf) members "fields" = .ok fs ∧
          refusedAt (ofFields fs) = some a := by
  have hf : refusedAt (leaf (listOf fieldOf) members "fields") =
      blame members ("fields", fields) := refusedAt_leaf_of fun _ => rfl
  rw [ofTagged, refusedAt_bind, ← hf]
  cases leaf (listOf fieldOf) members "fields" with
  | error r => simp [refusedAt, Except.toOption]
  | ok fs => simp [refusedAt, Except.toOption]

theorem refusal_shape_object :
    shape.refusal (.object members) = some a ↔
      shape.firstBlamed members = some a ∨
        members.get? "tag" = some (.string "record") ∧
          ∃ fs, leaf (listOf fieldOf) members "fields" = .ok fs ∧
            refusedAt (ofFields fs) = some a := by
  rw [refusal, ofJson_object]
  cases h : leaf Tag.ofJson members "tag" with
  | error r =>
    have hn : members.get? "tag" ≠ some (.string "record") := by
      intro ht
      have hok : leaf Tag.ofJson members "tag" = .ok .record := leaf_eq_ok_iff.2 ⟨_, ht, rfl⟩
      rw [hok] at h
      cases h
    rw [firstBlamed_shape_of_error h]
    simp only [hn, false_and, or_false]
    rfl
  | ok form =>
    obtain ⟨j, hj, hform⟩ := leaf_eq_ok_iff.1 h
    obtain rfl := Tag.ofJson_eq_ok_iff.1 hform
    rw [firstBlamed_shape_of_tag hj, hj]
    by_cases hr : form = .record
    · subst hr
      simp only [Tag.name, declaredBy, findSome?_blame_cons, List.findSome?_nil, Option.or_none,
        true_and]
      exact refusedAt_ofTagged_record
    · have hn : form.name ≠ "record" := by
        intro hn
        have hrecord : Tag.ofName "record" = .ok form := Tag.ofName_eq_ok_iff.2 hn.symm
        cases hrecord
        exact hr rfl
      simp only [Option.some.injEq, Json.string.injEq, hn, false_and, or_false,
        ← refusedAt_ofTagged hr]
      rfl

theorem repeatedKey?_eq_some_iff {seen : List String} {n i : Nat} {key : String}
    {fs : List (Field Shape)} :
    repeatedKey? seen n fs = some (i, key) ↔
      ∃ before f after, fs = before ++ f :: after ∧ n + before.length = i ∧ f.key = key ∧
        repeatedKey? seen n before = none ∧
        (f.key ∈ before.map Field.key ∨ f.key ∈ seen) := by
  -- The keys that have been seen stand for the fields in front of these.
  induction fs generalizing seen n with
  | nil => simp [repeatedKey?]
  | cons f fs ih =>
    rw [repeatedKey?]
    by_cases hf : f.key ∈ seen
    · rw [if_pos hf]
      constructor
      · intro h
        cases h
        exact ⟨[], f, fs, rfl, rfl, rfl, rfl, .inr hf⟩
      · intro h
        obtain ⟨_ | ⟨g, before⟩, f', after, hfs, rfl, rfl, hn, _⟩ := h
        · cases hfs
          rfl
        · cases hfs
          rw [repeatedKey?, if_pos hf] at hn
          cases hn
    · have hcons before : repeatedKey? seen n (f :: before) =
          repeatedKey? (f.key :: seen) (n + 1) before := by rw [repeatedKey?, if_neg hf]
      have hmem (g : Field Shape) (before : List (Field Shape)) :
          (g.key ∈ (f :: before).map Field.key ∨ g.key ∈ seen) ↔
            (g.key ∈ before.map Field.key ∨ g.key ∈ f.key :: seen) := by
        rw [List.map_cons, List.mem_cons, List.mem_cons]
        tauto
      have hlen (before : List (Field Shape)) :
          n + (f :: before).length = n + 1 + before.length := by
        rw [List.length_cons, Nat.add_assoc, Nat.add_comm 1]
      rw [if_neg hf, ih]
      constructor
      · intro h
        obtain ⟨before, g, after, rfl, hi, hk, hn, hg⟩ := h
        exact ⟨f :: before, g, after, rfl, (hlen before).trans hi, hk, (hcons before).trans hn,
          (hmem g before).2 hg⟩
      · intro h
        obtain ⟨_ | ⟨f', before⟩, g, after, hfs, hi, hk, hn, hg⟩ := h
        · cases hfs
          exact absurd (hg.resolve_left List.not_mem_nil) hf
        · cases hfs
          exact ⟨before, g, after, rfl, (hlen before).symm.trans hi, hk,
            (hcons before).symm.trans hn, (hmem g before).1 hg⟩

theorem refusedAt_ofFields {fs : List (Field Shape)} :
    refusedAt (ofFields fs) = some a ↔
      ∃ i, FirstRepeated fs i ∧ a = [.key "fields", .index i, .key "key"] := by
  have hfirst i : (∃ key, repeatedKey? [] 0 fs = some (i, key)) ↔ FirstRepeated fs i := by
    simp only [repeatedKey?_eq_some_iff, repeatedKey?_eq_none_iff, FirstRepeated, Nat.zero_add,
      List.not_mem_nil, not_false_eq_true, implies_true, and_true, or_false]
    constructor
    · intro h
      obtain ⟨_, before, f, after, hfs, hi, _, hn, hf⟩ := h
      exact ⟨before, f, after, hfs, hi, hn, hf⟩
    · intro h
      obtain ⟨before, f, after, hfs, hi, hn, hf⟩ := h
      exact ⟨_, before, f, after, hfs, hi, rfl, hn, hf⟩
  simp only [← hfirst]
  rw [ofFields]
  cases repeatedKey? [] 0 fs with
  | none => simp [refusedAt]
  | some p => simp [refusedAt, eq_comm, Prod.ext_iff]

theorem refusal_of_firstBlamed (h : role.firstBlamed members = some a) :
    role.refusal (.object members) = some a := by
  cases role with
  | shape => exact refusal_shape_object.2 (.inl h)
  | field => exact refusal_field_object.trans h
  | _ => cases h

theorem refusal_of_not_object (hr : role = .shape ∨ role = .field)
    (h : ∀ members, j ≠ .object members) : role.refusal j = some [] := by
  cases j with
  | object members => exact absurd rfl (h members)
  | _ =>
    rcases hr with rfl | rfl
    · simp [refusal, ofJson, refusedAt]
    · simp [refusal, fieldOf, refusedAt]

theorem refusal_array {items : List Json} (hq : role.item? = some q) :
    role.refusal (.array items) = some a ↔
      ∃ before u after b, items = before ++ u :: after ∧ (∀ j ∈ before, q.Accepts j) ∧
        q.refusal u = some b ∧ a = .index before.length :: b := by
  have h : role.refusal (.array items) = some a ↔
      ∃ before u after b, items = before ++ u :: after ∧ (∀ j ∈ before, q.refusal j = none) ∧
        q.refusal u = some b ∧ a = .index (0 + before.length) :: b := by
    cases role with
    | shapes =>
      cases hq
      exact refusedAt_treeOfItems
    | fields =>
      cases hq
      exact refusedAt_treeOfItems
    | _ => cases hq
  simpa only [Nat.zero_add, refusal_eq_none_iff] using h

theorem refusal_of_not_array (hq : role.item? = some q) (h : ∀ items, j ≠ .array items) :
    role.refusal j = some [] := by
  cases role with
  | shapes => exact refusedAt_listOf_of_ne h
  | fields => exact refusedAt_listOf_of_ne h
  | _ => cases hq

theorem root_of_refusal_wildcard
    (named : ∀ (kind : Wildcard) (content : Json), j ≠ .object [(kind.keyword, content)])
    (h : wildcard.refusal j = some a) : a = [] := by
  rw [refusal] at h
  unfold Wildcard.ofJson at h
  split at h
  · split at h <;> cases h
    rfl
  · split at h
    · cases h
    · rename_i kind hn _
      exact absurd (by rw [Wildcard.ofName_eq_ok_iff.1 hn]) (named kind _)
    · cases h
      rfl
  all_goals
    cases h
    rfl

theorem root_of_refusal (hr : role.isLeaf = true)
    (named : ∀ (kind : Wildcard) (content : Json), role = .wildcard →
      j ≠ .object [(kind.keyword, content)])
    (h : role.refusal j = some a) : a = [] := by
  cases role with
  | shape | shapes | field | fields => cases hr
  | wildcard => exact root_of_refusal_wildcard (fun kind content => named kind content rfl) h
  | tag =>
    cases j with
    | string name => exact root_of_refusedAt_mapError h
    | _ =>
      cases h
      rfl
  | _ => exact root_of_refusedAt_mapError h

theorem refusal_wildcard_content {kind : Wildcard} {content : Json} (h : content ≠ .null) :
    wildcard.refusal (.object [(kind.keyword, content)]) = some [.key kind.keyword] := by
  cases content with
  | null => exact absurd rfl h
  | _ => cases kind <;> rfl

theorem refusal_of_firstViolation (h : j.FirstViolation role a) : role.refusal j = some a := by
  induction h with
  | notObject hr h => exact refusal_of_not_object hr h
  | missing hd met absent =>
    exact refusal_of_firstBlamed
      (firstBlamed_eq_some_iff.2 ⟨_, _, _, hd, blame_eq_some_iff.2 (.inl ⟨absent, rfl⟩), met⟩)
  | member hd met present _ ih =>
    exact refusal_of_firstBlamed (firstBlamed_eq_some_iff.2
      ⟨_, _, _, hd, blame_eq_some_iff.2 (.inr ⟨_, _, present, ih, rfl⟩), met⟩)
  | @repeatedKey members items fields i tag list each h =>
    have hfields : leaf (listOf fieldOf) members "fields" = .ok fields := by
      refine leaf_eq_ok_iff.2 ⟨_, list, listOf_eq_ok_iff.2 ⟨items, rfl, ?_⟩⟩
      exact each.imp fun _ _ => fieldOf_iff_describesField.2
    exact refusal_shape_object.2
      (.inr ⟨tag, fields, hfields, refusedAt_ofFields.2 ⟨i, h, rfl⟩⟩)
  | notArray hq h => exact refusal_of_not_array hq h
  | item hq met _ ih => exact (refusal_array hq).2 ⟨_, _, _, _, rfl, met, ih, rfl⟩
  | leaf hr h named =>
    obtain ⟨b, hb⟩ := Option.ne_none_iff_exists'.1 (mt refusal_eq_none_iff.1 h)
    rw [hb, root_of_refusal hr named hb]
  | content h => exact refusal_wildcard_content h

theorem firstViolation_of_leaf (hr : role.isLeaf = true) (h : role.refusal j = some a) :
    j.FirstViolation role a := by
  have hn : ¬ role.Accepts j := by
    rw [← refusal_eq_none_iff, h]
    exact Option.some_ne_none a
  by_cases named : ∀ (kind : Wildcard) (content : Json), role = wildcard →
      j ≠ .object [(kind.keyword, content)]
  · rw [root_of_refusal hr named h]
    exact .leaf hr hn named
  · push Not at named
    obtain ⟨kind, content, rfl, rfl⟩ := named
    -- The name is known, so what stands under it is refused.
    have hc : content ≠ .null := by
      intro hc
      subst hc
      exact hn ⟨kind, .object kind⟩
    rw [refusal_wildcard_content hc] at h
    cases h
    exact .content hc

theorem firstViolation_of_firstBlamed
    (ih : ∀ m ∈ members, ∀ r b, Role.refusal r m.2 = some b → m.2.FirstViolation r b)
    (h : role.firstBlamed members = some a) : (Json.object members).FirstViolation role a := by
  obtain ⟨before, ⟨name, q⟩, after, hd, hb, met⟩ := firstBlamed_eq_some_iff.1 h
  rcases blame_eq_some_iff.1 hb with ⟨absent, rfl⟩ | ⟨u, b, present, hu, rfl⟩
  · exact .missing hd met absent
  · exact .member hd met present (ih (name, u) (Entries.mem_of_get? present) q b hu)

theorem firstViolation_of_object
    (ih : ∀ m ∈ members, ∀ r b, Role.refusal r m.2 = some b → m.2.FirstViolation r b)
    (hr : role = .shape ∨ role = .field) (h : role.refusal (.object members) = some a) :
    (Json.object members).FirstViolation role a := by
  rcases hr with rfl | rfl
  · rcases refusal_shape_object.1 h with h | ⟨ht, fs, hl, h⟩
    · exact firstViolation_of_firstBlamed ih h
    -- All fields have been read, and only now are their keys compared.
    · obtain ⟨i, hi, rfl⟩ := refusedAt_ofFields.1 h
      obtain ⟨j, hj, hfs⟩ := leaf_eq_ok_iff.1 hl
      obtain ⟨items, rfl, each⟩ := listOf_eq_ok_iff.1 hfs
      exact .repeatedKey ht hj (each.imp fun _ _ => fieldOf_iff_describesField.1) hi
  · exact firstViolation_of_firstBlamed ih (refusal_field_object.symm.trans h)

theorem firstViolation_of_not_object (hr : role = .shape ∨ role = .field)
    (hj : ∀ members, j ≠ .object members) (h : role.refusal j = some a) :
    j.FirstViolation role a := by
  rw [refusal_of_not_object hr hj] at h
  cases h
  exact .notObject hr hj

theorem firstViolation_of_not_array (hq : role.item? = some q) (hj : ∀ items, j ≠ .array items)
    (h : role.refusal j = some a) : j.FirstViolation role a := by
  rw [refusal_of_not_array hq hj] at h
  cases h
  exact .notArray hq hj

theorem leaf_or_object_or_list (role : Role) :
    role.isLeaf = true ∨ (role = .shape ∨ role = .field) ∨ ∃ q, role.item? = some q := by
  cases role <;> simp [isLeaf, item?]

theorem firstViolation_of_scalar (ho : ∀ members, j ≠ .object members)
    (ha : ∀ items, j ≠ .array items) (h : role.refusal j = some a) :
    j.FirstViolation role a := by
  rcases role.leaf_or_object_or_list with hl | hr | ⟨q, hq⟩
  · exact firstViolation_of_leaf hl h
  · exact firstViolation_of_not_object hr ho h
  · exact firstViolation_of_not_array hq ha h

theorem firstViolation_of_refusal (h : role.refusal j = some a) : j.FirstViolation role a := by
  -- The role may change from a document to its parts, so it is general in the induction.
  induction j generalizing role a with
  | object members ih =>
    rcases role.leaf_or_object_or_list with hl | hr | ⟨q, hq⟩
    · exact firstViolation_of_leaf hl h
    · exact firstViolation_of_object (fun m hm r b => ih m hm) hr h
    · exact firstViolation_of_not_array hq nofun h
  | array items ih =>
    rcases role.leaf_or_object_or_list with hl | hr | ⟨q, hq⟩
    · exact firstViolation_of_leaf hl h
    · exact firstViolation_of_not_object hr nofun h
    · obtain ⟨before, u, after, b, rfl, met, hu, rfl⟩ := (refusal_array hq).1 h
      exact .item hq met (ih u (by simp) hu)
  | null => exact firstViolation_of_scalar nofun nofun h
  | boolean b => exact firstViolation_of_scalar nofun nofun h
  | number n => exact firstViolation_of_scalar nofun nofun h
  | string s => exact firstViolation_of_scalar nofun nofun h

theorem refusal_eq_some_iff : role.refusal j = some a ↔ j.FirstViolation role a :=
  ⟨firstViolation_of_refusal, refusal_of_firstViolation⟩

end

end Role

namespace Shape

theorem under_root (a : Address) : Address.under Address.root a = Address.text a := by
  rw [Address.under]
  by_cases h : Address.text a = Address.root
  · rw [if_pos h, h]
  · rw [if_neg h, if_pos rfl]

theorem decode_of_refusedAt {j : Json} {a : Address} (h : refusedAt (ofJson j) = some a) :
    ∃ message, decode j = .error (.malformedType (Address.text a) message) := by
  obtain ⟨r, hr, rfl⟩ := refusedAt_eq_some_iff.1 h
  have hd : decode j = (ofJson j).mapError (Rejection.asFault Address.root) := rfl
  refine ⟨r.complaint.message, ?_⟩
  rw [hd, hr, mapError_error, Rejection.asFault, under_root]

/-- A document that does not decode is refused at its first violation, of which it has one. So is
it by the decoder that hands paths down as texts (`ofJsonAt_eq_decodeAt`). -/
theorem decode_blames_first_violation (j : Json) :
    (∀ f, decode j = .error f →
      ∃ a message, j.FirstViolation .shape a ∧ f = .malformedType (Address.text a) message) ∧
    ∀ a, j.FirstViolation .shape a →
      (∃ message, decode j = .error (.malformedType (Address.text a) message)) ∧
        ∀ b, j.FirstViolation .shape b → b = a := by
  have hv (a : Address) : j.FirstViolation .shape a ↔ refusedAt (ofJson j) = some a :=
    Role.refusal_eq_some_iff.symm
  simp only [hv]
  refine ⟨fun f hf => ?_, fun a ha => ⟨decode_of_refusedAt ha, fun b hb => ?_⟩⟩
  · have hd : decode j = (ofJson j).mapError (Rejection.asFault Address.root) := rfl
    cases hj : ofJson j with
    | ok t =>
      rw [hd, hj] at hf
      cases hf
    | error r =>
      obtain ⟨message, hm⟩ := decode_of_refusedAt (refusedAt_eq_some_iff.2 ⟨r, hj, rfl⟩)
      exact ⟨r.address, message, rfl, Except.error.inj (hf.symm.trans hm)⟩
  · exact Option.some.inj (hb.symm.trans ha)

example :
    decode (.object [("tag", .string "tuple"), ("elementTypes", .array [
      .object [("tag", .string "other"), ("type", .string "any")],
      .object [("type", .object [("any", .boolean true)]), ("tag", .string "other")],
      .null])]) =
    .error (.malformedType "elementTypes[1].type.any"
      "invalid type: boolean `true`, expected unit") := rfl

end Shape
end Conformance
