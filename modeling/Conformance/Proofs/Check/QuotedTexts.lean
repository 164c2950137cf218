import Conformance.Proofs.Check.FirstFault
import Conformance.Proofs.Shape.Unambiguous

/-!
# What faults quote

A fault about a value says what was wanted there: a type by its canonical text,
or a field by its key. The text of a shape is put together from the texts of its
parts and the keys of its fields, and nothing is changed in them where they are
put in. The main statement is that what a fault quotes can be found in the text
of the shape that the value was checked against.
-/
namespace Conformance

/-- The text of a type, or the key of a field, that a fault about a value quotes. -/
def Fault.quoted? : Fault → Option String
  | shapeMismatch expected _ => some expected
  | missingField key => some key
  | literalMismatch expected => some expected
  | unionExhausted union => some union
  | tupleArity tuple _ _ => some tuple
  | configuration | versionMismatch _ _ _ | malformedType _ _ | malformedValue _ => none

namespace Shape

theorem isInfix_intercalate {α : Type} {sep x : List α} {xs : List (List α)} (h : x ∈ xs) :
    x <:+: sep.intercalate xs := by
  induction xs with
  | nil => cases h
  | cons y ys ih =>
    cases ys with
    | nil =>
      obtain rfl := List.mem_singleton.1 h
      rw [List.intercalate_singleton]
    | cons z zs =>
      rw [List.intercalate_cons_cons]
      rcases List.mem_cons.1 h with rfl | hx
      · exact ⟨[], sep ++ sep.intercalate (z :: zs), by simp⟩
      · exact (ih hx).trans (List.suffix_append _ _).isInfix

section
variable {s t : Shape} {f : Field Shape} {fields : List (Field Shape)}

theorem fieldText_isInfix (h : f ∈ fields) : fieldText f <:+: (record fields).text := by
  cases fields with
  | nil => cases h
  | cons g fields =>
    have hf : fieldText f <:+: [';', ' '].intercalate (fieldTexts (g :: fields)) := by
      rw [fieldTexts_eq_map]
      exact isInfix_intercalate (List.mem_map_of_mem h)
    rw [text]
    exact hf.trans ⟨['{', ' '], [' ', '}'], by simp⟩

theorem key_isInfix (h : f ∈ fields) : f.key.toList <:+: (record fields).text := by
  refine List.IsInfix.trans ?_ (fieldText_isInfix h)
  rw [fieldText, List.append_assoc]
  exact (List.prefix_append _ _).isInfix

theorem value_isInfix_fieldText (f : Field Shape) : f.value.text <:+: fieldText f :=
  ⟨f.key.toList ++ (if f.optional then ['?'] else []) ++ [':', ' '], [], by simp [fieldText]⟩

theorem text_isInfix_of_mem_parts (h : s ∈ t.parts) : s.text <:+: t.text := by
  cases t with
  | record fields =>
    obtain ⟨f, hf, rfl⟩ := List.mem_map.1 h
    exact (value_isInfix_fieldText f).trans (fieldText_isInfix hf)
  | tuple elements =>
    have hs : s.text <:+: [',', ' '].intercalate (texts elements) := by
      rw [texts_eq_map]
      exact isInfix_intercalate (List.mem_map_of_mem h)
    rw [text]
    exact hs.trans ⟨['['], [']'], by simp⟩
  | array element =>
    obtain rfl := List.mem_singleton.1 h
    rw [text]
    refine List.IsInfix.trans ?_ (List.prefix_append _ _).isInfix
    -- A union stands in parentheses here, which are around its text and not in it.
    split_ifs
    · exact ⟨['('], [')'], by simp⟩
    · exact List.infix_rfl
  | union members =>
    rw [text, texts_eq_map]
    exact isInfix_intercalate (List.mem_map_of_mem h)
  | _ => cases h

theorem text_isInfix_of_mem_nodes (h : s ∈ t.nodes) : s.text <:+: t.text := by
  induction t using byAllParts with
  | h t ih =>
    rcases mem_nodes.1 h with rfl | ⟨p, hp, hs⟩
    · exact List.infix_rfl
    · exact (ih p hp hs).trans (text_isInfix_of_mem_parts hp)

end
end Shape

namespace Value

variable {u v : Value} {s t : Shape} {e : Fault}

theorem Descends.mem_nodes (h : v.Descends t u s) : s ∈ t.nodes := by
  induction h with
  | here v t => exact Shape.mem_nodes_self t
  | item _ _ _ ih => exact Shape.mem_nodes.2 (.inr ⟨_, List.mem_singleton_self _, ih⟩)
  | position _ _ ht _ _ ih => exact Shape.mem_nodes.2 (.inr ⟨_, List.mem_of_getElem? ht, ih⟩)
  | field hf _ _ _ ih =>
    have hm := List.mem_map_of_mem (f := Field.value) (List.mem_of_getElem? hf)
    exact Shape.mem_nodes.2 (.inr ⟨_, hm, ih⟩)

theorem LocalFault.exists_quoted (h : u.LocalFault s e) :
    ∃ quoted, e.quoted? = some quoted ∧ quoted.toList <:+: s.text := by
  have hrender (r : Shape) : r.render.toList <:+: r.text := by
    rw [Shape.render, String.toList_ofList]
  cases h with
  | primitive _ =>
    refine ⟨_, rfl, ?_⟩
    rw [Shape.text]
  | literal _ =>
    refine ⟨_, rfl, ?_⟩
    rw [Shape.text, String.toList_ofList]
  | missing hf _ _ _ => exact ⟨_, rfl, Shape.key_isInfix (List.mem_of_getElem? hf)⟩
  | array _ | tuple _ | record _ | arity _ | union _ => exact ⟨_, rfl, hrender _⟩

end Value

namespace Shape

/-- What the fault of a refused value quotes stands in the text of the shape. -/
theorem quoted_text_occurs (t : Shape) (v : Value) (e : Fault) (h : t.accept v = .error e) :
    ∃ quoted before after, e.quoted? = some quoted ∧ t.render = before ++ quoted ++ after := by
  obtain ⟨u, s, hd, hl⟩ := check_eq_error_iff.1 (accept_eq_error_iff_check.1 h)
  obtain ⟨quoted, hq, hs⟩ := hl.exists_quoted
  obtain ⟨before, after, ht⟩ := hs.trans (text_isInfix_of_mem_nodes hd.mem_nodes)
  refine ⟨quoted, String.ofList before, String.ofList after, hq, ?_⟩
  rw [render, ← ht, String.ofList_append, String.ofList_append, String.ofList_toList]

def labels : Shape :=
  record [⟨"labels", array (union [primitive .string,
    tuple [primitive .string, literal (.boolean true)]]), true⟩]

theorem quoted_text_occurs_labels :
    labels.accept (.object [("labels", .array [.string "a", .null])]) =
        .error (.unionExhausted "string | [string, true]") ∧
      ∃ before after, "{ labels?: (string | [string, true])[] }" =
        before ++ "string | [string, true]" ++ after := by
  have h : labels.accept (.object [("labels", .array [.string "a", .null])]) =
      .error (.unionExhausted "string | [string, true]") := rfl
  obtain ⟨quoted, before, after, hq, ht⟩ := quoted_text_occurs _ _ _ h
  cases hq
  exact ⟨h, before, after, ht⟩

end Shape
end Conformance
