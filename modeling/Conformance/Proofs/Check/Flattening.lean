import Conformance.Proofs.Check.Widening
import Conformance.Proofs.Shape.Alternatives
import Mathlib.Logic.Relation

/-!
# Unions in unions

A union that is a member of a union can be taken apart: its members are put in
its place. `Splice` is one such step, at any depth, and `flat` is a shape on
which no step is left to take. A step keeps what conforms. If no union is empty
it also keeps the canonical text, because the bars of the inner union come to
stand among those of the outer one, and with the text it keeps what is reported
of a value. So nobody can see whether a shape has been flattened.
-/
namespace Conformance.Shape

/-- A union that is a member of a union gives way to its members. -/
inductive Splice : Shape → Shape → Prop
  | here (before inner after : List Shape) :
      Splice (union (before ++ union inner :: after)) (union (before ++ inner ++ after))
  | within (C : Context) {s t : Shape} (h : Splice s t) : Splice (C.fill s) (C.fill t)

abbrev SplicesTo : Shape → Shape → Prop := Relation.ReflTransGen Splice

def spliced : Shape → List Shape
  | union members => members
  | t => [t]

mutual
def flat : Shape → Shape
  | record fields => record (flatFields fields)
  | tuple elements => tuple (flatAll elements)
  | array element => array (flat element)
  | union members => union (flatMembers members)
  | primitive kind => primitive kind
  | literal value => literal value
  | other kind => other kind
def flatAll : List Shape → List Shape
  | [] => []
  | t :: ts => flat t :: flatAll ts
def flatMembers : List Shape → List Shape
  | [] => []
  | t :: ts => spliced (flat t) ++ flatMembers ts
def flatFields : List (Field Shape) → List (Field Shape)
  | [] => []
  | ⟨key, value, optional⟩ :: fs => ⟨key, flat value, optional⟩ :: flatFields fs
end

theorem flatAll_eq (ts : List Shape) : flatAll ts = ts.map flat := by
  induction ts with
  | nil => rfl
  | cons t ts ih => rw [flatAll, ih, List.map_cons]

theorem flatMembers_eq (ts : List Shape) : flatMembers ts = (ts.map flat).flatMap spliced := by
  induction ts with
  | nil => rfl
  | cons t ts ih => rw [flatMembers, ih, List.map_cons, List.flatMap_cons]

theorem flatFields_eq (fs : List (Field Shape)) :
    flatFields fs = fs.map fun f => { f with value := f.value.flat } := by
  induction fs with
  | nil => rfl
  | cons f fs ih => rw [flatFields, ih, List.map_cons]

variable {s t : Shape}

theorem splicesTo_fill (C : Context) (h : SplicesTo s t) : SplicesTo (C.fill s) (C.fill t) :=
  h.lift (Context.fill · C) fun _ _ => Splice.within C

theorem splicesTo_map {α : Type} {g : α → α} {as : List α} (f : List α → Shape)
    (h : ∀ before, ∀ a ∈ as, ∀ after,
      SplicesTo (f (before ++ a :: after)) (f (before ++ g a :: after))) :
    SplicesTo (f as) (f (as.map g)) := by
  induction as generalizing f with
  | nil => exact .refl
  | cons a as ih =>
    apply (h [] a List.mem_cons_self as).trans
    apply ih fun as => f (g a :: as)
    intro before b hb after
    exact h (g a :: before) b (List.mem_cons_of_mem a hb) after

theorem splicesTo_splice (before : List Shape) (t : Shape) (after : List Shape) :
    SplicesTo (union (before ++ t :: after)) (union (before ++ spliced t ++ after)) := by
  cases t with
  | union members => exact .single (.here before members after)
  | _ =>
    rw [List.append_assoc]
    exact .refl

theorem splicesTo_spliced (before ts : List Shape) :
    SplicesTo (union (before ++ ts)) (union (before ++ ts.flatMap spliced)) := by
  induction ts generalizing before with
  | nil => exact .refl
  | cons t ts ih =>
    apply (splicesTo_splice before t ts).trans
    rw [List.flatMap_cons, ← List.append_assoc]
    exact ih (before ++ spliced t)

theorem splicesTo_flat (t : Shape) : SplicesTo t t.flat := by
  induction t with
  | record fields ih =>
    rw [flat, flatFields_eq]
    apply splicesTo_map record
    intro before f hf after
    exact splicesTo_fill (.record before f.key .hole f.optional after) (ih f hf)
  | tuple elements ih =>
    rw [flat, flatAll_eq]
    apply splicesTo_map tuple
    intro before t ht after
    exact splicesTo_fill (.tuple before .hole after) (ih t ht)
  | array element ih => exact splicesTo_fill (.array .hole) ih
  | union members ih =>
    rw [flat, flatMembers_eq]
    apply Relation.ReflTransGen.trans _ (splicesTo_spliced [] (members.map flat))
    apply splicesTo_map union
    intro before t ht after
    exact splicesTo_fill (.union before .hole after) (ih t ht)
  | _ => exact .refl

def IsFlat (t : Shape) : Prop :=
  ∀ members, union members ∈ t.nodes → ∀ m ∈ members, m.isUnion = false

theorem isFlat_iff :
    t.IsFlat ↔ (∀ members, union members = t → ∀ m ∈ members, m.isUnion = false) ∧
      ∀ p ∈ t.parts, p.IsFlat := by
  simp only [IsFlat, mem_nodes (t := t)]
  constructor
  · intro h
    exact ⟨fun members ht => h members (.inl ht),
      fun p hp members hm => h members (.inr ⟨p, hp, hm⟩)⟩
  · intro h members hm
    rcases hm with ht | ⟨p, hp, hm⟩
    · exact h.1 members ht
    · exact h.2 p hp members hm

theorem isFlat_of_not_union (hu : t.isUnion = false) (h : ∀ p ∈ t.parts, p.IsFlat) :
    t.IsFlat := by
  refine isFlat_iff.2 ⟨?_, h⟩
  rintro members rfl
  cases hu

theorem isFlat_of_mem_spliced {m : Shape} (h : t.IsFlat) (hm : m ∈ t.spliced) :
    m.isUnion = false ∧ m.IsFlat := by
  have hparts := isFlat_iff.1 h
  cases t with
  | union members => exact ⟨hparts.1 members rfl m hm, hparts.2 m hm⟩
  | _ =>
    obtain rfl := List.mem_singleton.1 hm
    exact ⟨rfl, h⟩

theorem isFlat_flat (t : Shape) : t.flat.IsFlat := by
  induction t with
  | record fields ih =>
    rw [flat, flatFields_eq]
    exact isFlat_of_not_union rfl (by simpa [parts] using ih)
  | tuple elements ih =>
    rw [flat, flatAll_eq]
    exact isFlat_of_not_union rfl (by simpa [parts] using ih)
  | array element ih => exact isFlat_of_not_union rfl (List.forall_mem_singleton.2 ih)
  | union members ih =>
    have hm : ∀ m ∈ flatMembers members, m.isUnion = false ∧ m.IsFlat := by
      rw [flatMembers_eq]
      intro m hm
      obtain ⟨u, hu, hm⟩ := List.mem_flatMap.1 hm
      obtain ⟨t, ht, rfl⟩ := List.mem_map.1 hu
      exact isFlat_of_mem_spliced (ih t ht) hm
    rw [flat, isFlat_iff]
    refine ⟨?_, fun m h => (hm m h).2⟩
    rintro _ ⟨⟩ m h
    exact (hm m h).1
  | _ => exact isFlat_of_not_union rfl (List.forall_mem_nil _)

theorem mem_nodes_fill (C : Context) (t : Shape) : t ∈ (C.fill t).nodes := by
  induction C with
  | hole => exact mem_nodes_self t
  | array element ih => exact mem_nodes_trans ih (mem_nodes_of_mem_parts List.mem_cons_self)
  | tuple before element after ih =>
    exact mem_nodes_trans ih (mem_nodes_of_mem_parts List.mem_append_cons_self)
  | union before member after ih =>
    exact mem_nodes_trans ih (mem_nodes_of_mem_parts List.mem_append_cons_self)
  | record before key value optional after ih =>
    exact mem_nodes_trans ih (mem_nodes_of_mem_parts
      (List.mem_map_of_mem (f := Field.value) List.mem_append_cons_self))

theorem not_splice_of_isFlat (h : s.IsFlat) (t : Shape) : ¬ Splice s t := by
  intro hs
  induction hs with
  | here before inner after =>
    have hu := h _ (mem_nodes_self _) (union inner) List.mem_append_cons_self
    cases hu
  | within C hs ih =>
    apply ih
    intro members hm
    exact h members (mem_nodes_trans hm (mem_nodes_fill C _))

theorem conforms_union_iff {v : Value} {members : List Shape} :
    v.Conforms (union members) ↔ ∃ m ∈ members, v.Conforms m := by
  constructor
  · intro h
    cases h with
    | union mem h => exact ⟨_, mem, h⟩
  · intro h
    obtain ⟨m, hm, h⟩ := h
    exact .union hm h

theorem equivalent_fill (C : Context) (h : s.Equivalent t) : (C.fill s).Equivalent (C.fill t) := by
  obtain ⟨hst, hts⟩ := equivalent_iff_within.1 h
  exact equivalent_iff_within.2 ⟨within_fill C hst, within_fill C hts⟩

theorem Splice.equivalent (h : Splice s t) : s.Equivalent t := by
  induction h with
  | here before inner after =>
    intro v
    simp only [conforms_union_iff, List.mem_append, List.mem_cons, or_and_right, exists_or,
      exists_eq_left, or_assoc]
  | within C _ ih => exact equivalent_fill C ih

theorem SplicesTo.equivalent (h : SplicesTo s t) : s.Equivalent t := by
  induction h with
  | refl => exact Equivalent.refl s
  | tail _ h ih => exact ih.trans h.equivalent

structure Interchangeable (s t : Shape) : Prop where
  isUnion : s.isUnion = t.isUnion
  text : s.text = t.text
  check : ∀ v, s.check v = t.check v

theorem Interchangeable.render (h : s.Interchangeable t) : s.render = t.render :=
  congrArg String.ofList h.text

theorem mismatch_of_text (h : s.text = t.text) (v : Value) : s.mismatch v = t.mismatch v := by
  rw [mismatch, mismatch, Shape.render, Shape.render, h]

theorem checkSome_append (ts us : List Shape) (v : Value) :
    checkSome (ts ++ us) v = (checkSome ts v || checkSome us v) := by
  induction ts with
  | nil => rfl
  | cons t ts ih => rw [List.cons_append, checkSome, checkSome, ih, Bool.or_assoc]

theorem checkSome_union (members ts : List Shape) (v : Value) :
    checkSome (union members :: ts) v = (checkSome members v || checkSome ts v) := by
  rw [checkSome, check]
  cases checkSome members v <;> rfl

section
variable {before after : List Shape}

theorem texts_replace (h : s.text = t.text) :
    texts (before ++ s :: after) = texts (before ++ t :: after) := by
  simp only [texts_eq_map, List.map_append, List.map_cons, h]

theorem checkEach_replace (h : ∀ v, s.check v = t.check v) (vs : List Value) :
    checkEach (before ++ s :: after) vs = checkEach (before ++ t :: after) vs := by
  induction before generalizing vs with
  | nil =>
    cases vs with
    | nil => rfl
    | cons v vs => rw [List.nil_append, List.nil_append, checkEach, checkEach, h]
  | cons u before ih =>
    cases vs with
    | nil => rfl
    | cons v vs => rw [List.cons_append, List.cons_append, checkEach, checkEach, ih]

theorem checkSome_replace {v : Value} (h : s.check v = t.check v) :
    checkSome (before ++ s :: after) v = checkSome (before ++ t :: after) v := by
  rw [checkSome_append, checkSome_append, checkSome, checkSome, h]

end

theorem forM_replace {α : Type} {f : α → Except Fault Unit} {a b : α} (h : f a = f b)
    {before after : List α} : (before ++ a :: after).forM f = (before ++ b :: after).forM f := by
  induction before with
  | nil => rw [List.nil_append, List.nil_append, forM_cons, forM_cons, h]
  | cons c before ih => rw [List.cons_append, List.cons_append, forM_cons, forM_cons, ih]

theorem fieldTexts_append (fs gs : List (Field Shape)) :
    fieldTexts (fs ++ gs) = fieldTexts fs ++ fieldTexts gs := by
  induction fs with
  | nil => rfl
  | cons f fs ih => rw [List.cons_append, fieldTexts, fieldTexts, ih, List.cons_append]

theorem text_record_congr {fs gs : List (Field Shape)} (h : fieldTexts fs = fieldTexts gs) :
    (record fs).text = (record gs).text := by
  cases fs with
  | nil =>
    cases gs with
    | nil => rfl
    | cons g gs => cases h
  | cons f fs =>
    cases gs with
    | nil => cases h
    | cons g gs => rw [text, text, h]

theorem interchangeable_fill (C : Context) (h : s.Interchangeable t) :
    (C.fill s).Interchangeable (C.fill t) := by
  induction C with
  | hole => exact h
  | array element ih =>
    -- An array puts brackets around a union, so one may not stand for a shape that is none.
    have ht : (array (element.fill s)).text = (array (element.fill t)).text := by
      rw [text, text, ih.isUnion, ih.text]
    refine ⟨rfl, ht, fun v => ?_⟩
    simp only [Context.fill, check, mismatch_of_text ht, ih.check]
  | tuple before element after ih =>
    have ht : (tuple (before ++ element.fill s :: after)).text =
        (tuple (before ++ element.fill t :: after)).text := by
      rw [text, text, texts_replace ih.text]
    refine ⟨rfl, ht, fun v => ?_⟩
    simp only [Context.fill, check, mismatch_of_text ht, checkEach_replace ih.check, Shape.render,
      ht, List.length_append, List.length_cons]
  | union before member after ih =>
    have ht : (union (before ++ member.fill s :: after)).text =
        (union (before ++ member.fill t :: after)).text := by
      rw [text, text, texts_replace ih.text]
    refine ⟨rfl, ht, fun v => ?_⟩
    simp only [Context.fill, check, checkSome_replace (ih.check v), Shape.render, ht]
  | record before key value optional after ih =>
    have ht : (record (before ++ ⟨key, value.fill s, optional⟩ :: after)).text =
        (record (before ++ ⟨key, value.fill t, optional⟩ :: after)).text := by
      apply text_record_congr
      simp only [fieldTexts_append, fieldTexts, ih.text]
    refine ⟨rfl, ht, fun v => ?_⟩
    have hf (members : Entries Value) : Field.check members ⟨key, value.fill s, optional⟩ =
        Field.check members ⟨key, value.fill t, optional⟩ := by
      simp only [Field.check, ih.check]
    simp only [Context.fill, check, mismatch_of_text ht, checkFields_eq_forM,
      forM_replace (hf _)]

theorem intercalate_splice {sep : List Char} {xs ys zs : List (List Char)} (hy : ys ≠ []) :
    sep.intercalate (xs ++ sep.intercalate ys :: zs) = sep.intercalate (xs ++ ys ++ zs) := by
  induction xs with
  | nil =>
    cases zs with
    | nil => rw [List.nil_append, List.nil_append, List.append_nil, List.intercalate_singleton]
    | cons z zs =>
      rw [List.nil_append, List.nil_append, intercalate_append hy (List.cons_ne_nil z zs),
        List.intercalate_cons_of_ne_nil (List.cons_ne_nil z zs)]
  | cons x xs ih =>
    rw [List.cons_append, List.cons_append, List.cons_append,
      List.intercalate_cons_of_ne_nil (by simp), List.intercalate_cons_of_ne_nil (by simp [hy]), ih]

theorem interchangeable_splice {inner : List Shape} (before after : List Shape)
    (h : inner ≠ []) :
    (union (before ++ union inner :: after)).Interchangeable
      (union (before ++ inner ++ after)) := by
  have ht : (union (before ++ union inner :: after)).text =
      (union (before ++ inner ++ after)).text := by
    simp only [text, texts_eq_map, List.map_append, List.map_cons]
    exact intercalate_splice (by simpa using h)
  refine ⟨rfl, ht, fun v => ?_⟩
  have hs : checkSome (before ++ union inner :: after) v =
      checkSome (before ++ inner ++ after) v := by
    simp only [checkSome_append, checkSome_union, Bool.or_assoc]
  rw [check, check, hs, Shape.render, Shape.render, ht]

theorem freeOfEmptyUnions_iff :
    t.FreeOfEmptyUnions ↔ t ≠ union [] ∧ ∀ p ∈ t.parts, p.FreeOfEmptyUnions := by
  simp [FreeOfEmptyUnions, mem_nodes (t := t), eq_comm]

theorem FreeOfEmptyUnions.of_fill {C : Context} (h : (C.fill t).FreeOfEmptyUnions) :
    t.FreeOfEmptyUnions :=
  fun hn => h (mem_nodes_trans hn (mem_nodes_fill C t))

theorem forall_mem_replace {α : Type} {P : α → Prop} {before after : List α} {a b : α}
    (h : ∀ x ∈ before ++ a :: after, P x) (hb : P b) : ∀ x ∈ before ++ b :: after, P x := by
  rw [List.forall_mem_append, List.forall_mem_cons] at h ⊢
  exact ⟨h.1, hb, h.2.2⟩

theorem FreeOfEmptyUnions.fill {C : Context} (hs : (C.fill s).FreeOfEmptyUnions)
    (ht : t.FreeOfEmptyUnions) : (C.fill t).FreeOfEmptyUnions := by
  induction C with
  | hole => exact ht
  | array element ih =>
    have he := ih (hs.part List.mem_cons_self)
    exact freeOfEmptyUnions_iff.2 ⟨nofun, List.forall_mem_singleton.2 he⟩
  | tuple before element after ih =>
    have he := ih (hs.part List.mem_append_cons_self)
    exact freeOfEmptyUnions_iff.2 ⟨nofun, forall_mem_replace (fun _ => hs.part) he⟩
  | union before member after ih =>
    have he := ih (hs.part List.mem_append_cons_self)
    exact freeOfEmptyUnions_iff.2
      ⟨by simp [Context.fill], forall_mem_replace (fun _ => hs.part) he⟩
  | record before key value optional after ih =>
    have hp := (freeOfEmptyUnions_iff.1 hs).2
    simp only [Context.fill, parts, List.map_append, List.map_cons] at hp
    have hv := ih (hp _ List.mem_append_cons_self)
    refine freeOfEmptyUnions_iff.2 ⟨by simp [Context.fill], ?_⟩
    simp only [Context.fill, parts, List.map_append, List.map_cons]
    exact forall_mem_replace hp hv

theorem FreeOfEmptyUnions.splice (hf : s.FreeOfEmptyUnions) (h : Splice s t) :
    t.FreeOfEmptyUnions := by
  induction h with
  | here before inner after =>
    have hinner := freeOfEmptyUnions_iff.1 (hf.part List.mem_append_cons_self)
    refine freeOfEmptyUnions_iff.2 ⟨?_, ?_⟩
    · have hne : inner ≠ [] := fun h => hinner.1 (congrArg union h)
      simp [hne]
    · have hp := (freeOfEmptyUnions_iff.1 hf).2
      simp only [parts, List.forall_mem_append, List.forall_mem_cons] at hp ⊢
      exact ⟨⟨hp.1, hinner.2⟩, hp.2.2⟩
  | within C _ ih => exact hf.fill (ih hf.of_fill)

theorem Splice.interchangeable (h : Splice s t) (hf : s.FreeOfEmptyUnions) :
    s.Interchangeable t := by
  induction h with
  | here before inner after =>
    apply interchangeable_splice
    intro h
    exact (freeOfEmptyUnions_iff.1 (hf.part List.mem_append_cons_self)).1 (congrArg union h)
  | within C _ ih => exact interchangeable_fill C (ih hf.of_fill)

theorem SplicesTo.interchangeable (h : SplicesTo s t) (hf : s.FreeOfEmptyUnions) :
    s.Interchangeable t ∧ t.FreeOfEmptyUnions := by
  induction h with
  | refl => exact ⟨⟨rfl, rfl, fun _ => rfl⟩, hf⟩
  | tail _ h ih =>
    obtain ⟨hst, hf⟩ := ih
    have hs := h.interchangeable hf
    exact ⟨⟨hst.isUnion.trans hs.isUnion, hst.text.trans hs.text,
      fun v => (hst.check v).trans (hs.check v)⟩, hf.splice h⟩

/-- A shape is flattened by splicing unions until there is none left in a union. The flat shape
accepts the same values; and if no union in the shape is empty, it has the same canonical text and
gives the same result for every value, also where that is a fault. -/
theorem flattening_unseen (t : Shape) :
    (SplicesTo t t.flat ∧ ∀ u, ¬ Splice t.flat u) ∧
      (∀ v w, t.accept v = .ok w ↔ t.flat.accept v = .ok w) ∧
      (t.FreeOfEmptyUnions →
        t.flat.render = t.render ∧ ∀ v, t.flat.accept v = t.accept v) := by
  have hs := splicesTo_flat t
  refine ⟨⟨hs, not_splice_of_isFlat (isFlat_flat t)⟩, hs.equivalent.accept_iff, fun hf => ?_⟩
  have hi := (hs.interchangeable hf).1
  exact ⟨hi.render.symm, fun v => by
    rw [accept_eq_map_check, accept_eq_map_check, hi.check]⟩

/-- The bars of an empty union are seen in the text, where flattening takes them away. -/
example : (union [primitive .string, union []]).render = "string | " ∧
    (union [primitive .string, union []]).flat.render = "string" := by decide

def codes : Shape :=
  array (union [primitive .string, union [primitive .number, union [primitive .null]]])

theorem flattening_unseen_codes :
    codes.FreeOfEmptyUnions ∧
      codes.flat = array (union [primitive .string, primitive .number, primitive .null]) ∧
      codes.flat.render = codes.render ∧
      codes.accept (.array [.boolean true]) =
        .error (.unionExhausted "string | number | null") := by
  have hf : codes.FreeOfEmptyUnions := by simp [FreeOfEmptyUnions, codes, nodes, nodesOfAll]
  obtain ⟨-, -, hseen⟩ := flattening_unseen codes
  obtain ⟨hr, hv⟩ := hseen hf
  refine ⟨hf, rfl, hr, ?_⟩
  rw [← hv]
  rfl

end Conformance.Shape
