import Conformance.Command.Run
import Conformance.Proofs.Shape.Encoding
import Conformance.Proofs.Shape.WaysToDecode
import Mathlib.Data.List.Forall2

/-!
# A run of the check command

`Command.Prepared` says what must be there before anything is checked: a shape
of the supported version, and a document for every path that the inputs stand
for. Then every document gets its line, in the order of these paths and by its
own outcome alone. Without it nothing is checked, and the run ends with exit
code 2 and an empty output.

Checking has no order of its own. `Command.fill` checks one document and puts
the outcome into the slot of that document; once every document has had its
turn the run reports what is in the slots, in whatever order the turns came.
-/
namespace Conformance.Command

/-- The paths that an input stands for: itself, or what a pattern expands to. -/
inductive Names (files : Files) : String → List String → Prop
  | path {input : String} (h : Glob.isPattern input = false) : Names files input [input]
  | pattern {input : String} {paths : List String} (h : Glob.isPattern input = true)
      (expanded : Glob.expand files input = .ok paths) (found : paths ≠ []) :
      Names files input paths

inductive Selects : Option String → Json → Json → Prop
  | whole (j : Json) : Selects none j j
  | part {pointer : String} {j k : Json} (h : j.pointer? pointer = some k) :
      Selects (some pointer) j k

/-- The file at a path is a document, and this is the part of it that is to be checked. -/
inductive Holds (files : Files) (pointer : Option String) : String → Document → Prop
  | document {path source : String} {j k : Json} (read : files.read path = .ok source)
      (parsed : Json.ofText source = .ok j) (selected : Selects pointer j k) :
      Holds files pointer path ⟨path, .ofJson k⟩

structure Prepared (files : Files) (c : CheckSettings) (t : Shape) (ds : List Document) :
    Prop where
  version : c.type.version = schemaVersion
  shape : ∃ source, files.read c.type.path = .ok source ∧ Shape.decodeText source = .ok t
  documents : ∃ groups, List.Forall₂ (Names files) c.inputs groups ∧
    List.Forall₂ (Holds files c.pointer) groups.flatten ds

variable {files : Files} {c : CheckSettings} {t : Shape} {ds : List Document}

theorem loadType_eq_ok_iff {type : TypeSettings} :
    loadType files type = .ok t ↔
      type.version = schemaVersion ∧
        ∃ source, files.read type.path = .ok source ∧ Shape.decodeText source = .ok t := by
  rw [← checkVersion_eq_ok_iff (u := ()), loadType]
  cases checkVersion type.version with
  | error f => simp
  | ok _ =>
    cases files.read type.path with
    | error e => simp
    | ok source => simp [Shape.mapError_eq_ok]

theorem resolve_eq_ok_iff {input : String} {paths : List String} :
    resolve files input = .ok paths ↔ Names files input paths := by
  rw [resolve]
  cases hp : Glob.isPattern input with
  | false =>
    constructor
    · intro h
      cases h
      exact .path hp
    · intro h
      cases h with
      | path _ => rfl
      | pattern h _ _ => rw [hp] at h; cases h
  | true =>
    constructor
    · intro h
      cases he : Glob.expand files input with
      | error problem => simp [he] at h
      | ok found =>
        cases found with
        | nil => simp [he] at h
        | cons p ps =>
          simp only [he, if_true] at h
          cases h
          exact .pattern hp he (List.cons_ne_nil p ps)
    · intro h
      cases h with
      | path h => rw [hp] at h; cases h
      | pattern _ he hne =>
        cases paths with
        | nil => exact absurd rfl hne
        | cons p ps => simp [he]

theorem resolveAll_eq_ok_iff {inputs paths : List String} :
    resolveAll files inputs = .ok paths ↔
      ∃ groups, List.Forall₂ (Names files) inputs groups ∧ groups.flatten = paths := by
  induction inputs generalizing paths with
  | nil => simp [resolveAll]
  | cons input inputs ih =>
    rw [resolveAll]
    constructor
    · intro h
      cases hr : resolve files input with
      | error f => simp [hr] at h
      | ok here =>
        simp only [hr, Shape.map_eq_ok, ih] at h
        obtain ⟨_, ⟨groups, hg, rfl⟩, rfl⟩ := h
        exact ⟨here :: groups, .cons (resolve_eq_ok_iff.1 hr) hg, rfl⟩
    · intro h
      obtain ⟨groups, hg, rfl⟩ := h
      obtain ⟨here, rest, hh, hrest, rfl⟩ := List.forall₂_cons_left_iff.1 hg
      rw [resolve_eq_ok_iff.2 hh]
      exact Shape.map_eq_ok.2 ⟨rest.flatten, ih.2 ⟨rest, hrest, rfl⟩, rfl⟩

theorem select_eq_ok_iff {pointer : Option String} {label : String} {j k : Json} :
    select pointer label j = .ok k ↔ Selects pointer j k := by
  constructor
  · intro h
    cases pointer with
    | none =>
      cases h
      exact .whole j
    | some pointer =>
      cases hk : j.pointer? pointer with
      | none => simp [select, hk] at h
      | some k' =>
        simp only [select, hk] at h
        cases h
        exact .part hk
  · intro h
    cases h with
    | whole => rfl
    | part h => rw [select, h]

theorem loadDocument_eq_ok_iff {pointer : Option String} {path : String} {d : Document} :
    loadDocument files pointer path = .ok d ↔ Holds files pointer path d := by
  constructor
  · intro h
    rw [loadDocument] at h
    cases hr : files.read path with
    | error e => simp [hr] at h
    | ok source =>
      cases hj : Json.ofText source with
      | error r => simp [hr, hj] at h
      | ok j =>
        simp only [hr, hj, Shape.map_eq_ok] at h
        obtain ⟨k, hk, rfl⟩ := h
        exact .document hr hj (select_eq_ok_iff.1 hk)
  · intro h
    cases h with
    | document hr hj hk =>
      rw [loadDocument, hr]
      simp only [hj]
      exact Shape.map_eq_ok.2 ⟨_, select_eq_ok_iff.2 hk, rfl⟩

theorem loadDocuments_eq_ok_iff {pointer : Option String} {paths : List String} :
    loadDocuments files pointer paths = .ok ds ↔
      List.Forall₂ (Holds files pointer) paths ds := by
  induction paths generalizing ds with
  | nil => simp [loadDocuments, eq_comm]
  | cons path paths ih =>
    rw [loadDocuments]
    constructor
    · intro h
      cases hd : loadDocument files pointer path with
      | error f => simp [hd] at h
      | ok d =>
        simp only [hd, Shape.map_eq_ok, ih] at h
        obtain ⟨rest, hrest, rfl⟩ := h
        exact .cons (loadDocument_eq_ok_iff.1 hd) hrest
    · intro h
      obtain ⟨d, rest, hd, hrest, rfl⟩ := List.forall₂_cons_left_iff.1 h
      rw [loadDocument_eq_ok_iff.2 hd]
      exact Shape.map_eq_ok.2 ⟨rest, ih.2 hrest, rfl⟩

theorem load_eq_ok_iff : load files c = .ok (t, ds) ↔ Prepared files c t ds := by
  rw [load]
  constructor
  · intro h
    cases ht : loadType files c.type with
    | error f => simp [ht] at h
    | ok t' =>
      cases hp : resolveAll files c.inputs with
      | error f => simp [ht, hp] at h
      | ok paths =>
        simp only [ht, hp, Shape.map_eq_ok] at h
        obtain ⟨ds', hd, he⟩ := h
        cases he
        obtain ⟨hv, hs⟩ := loadType_eq_ok_iff.1 ht
        obtain ⟨groups, hg, rfl⟩ := resolveAll_eq_ok_iff.1 hp
        exact ⟨hv, hs, groups, hg, loadDocuments_eq_ok_iff.1 hd⟩
  · intro h
    obtain ⟨groups, hg, hd⟩ := h.documents
    rw [loadType_eq_ok_iff.2 ⟨h.version, h.shape⟩]
    simp only [resolveAll_eq_ok_iff.2 ⟨groups, hg, rfl⟩]
    exact Shape.map_eq_ok.2 ⟨ds, loadDocuments_eq_ok_iff.2 hd, rfl⟩

def rejects (t : Shape) (d : Document) : Bool := !(t.accept d.value).isOk

def line (colour : Bool) (t : Shape) (d : Document) : String :=
  match t.accept d.value with
  | .ok _ => coloured colour "32" "ok" ++ " " ++ d.label ++ "\n"
  | .error fault => coloured colour "31" "FAIL" ++ " " ++ d.label ++ ": " ++ fault.message ++ "\n"

def results (t : Shape) (ds : List Document) : List Result :=
  ds.map fun d => (d.label, t.accept d.value)

theorem verdict_eq (colour quiet : Bool) (d : Document) :
    verdict colour quiet (d.label, t.accept d.value) =
      if quiet && !rejects t d then "" else line colour t d := by
  rw [line, rejects]
  cases t.accept d.value with
  | ok v => cases quiet <;> rfl
  | error fault => cases quiet <;> rfl

theorem join_verdicts (colour quiet : Bool) :
    String.join ((results t ds).map (verdict colour quiet)) =
      String.join ((ds.filter fun d => !quiet || rejects t d).map (line colour t)) := by
  rw [results, List.map_map]
  induction ds with
  | nil => rfl
  | cons d ds ih =>
    rw [List.map_cons, String.join_cons, ih, Function.comp_apply, verdict_eq, List.filter_cons]
    cases quiet <;> cases rejects t d <;> simp [String.join_cons]

theorem length_failed :
    ((results t ds).filter fun r => !r.2.isOk).length = (ds.filter (rejects t)).length := by
  rw [results, List.filter_map, List.length_map]
  rfl

theorem runCheck_of_prepared {colour : Bool} (h : c.noOp = false) (hp : Prepared files c t ds) :
    runCheck colour files c = report colour c.quiet files (results t ds) := by
  rw [runCheck, h, load_eq_ok_iff.2 hp]
  rfl

theorem runCheck_of_not_prepared (colour : Bool) (h : c.noOp = false)
    (hp : ∀ t ds, ¬ Prepared files c t ds) :
    ∃ f, runCheck colour files c = Failure.outcome f files := by
  rw [runCheck, h]
  cases hl : load files c with
  | error f => exact ⟨f, rfl⟩
  | ok p => exact absurd (load_eq_ok_iff.1 hl) (hp p.1 p.2)

/-- The slots after a document had its turn. -/
def fill (t : Shape) (ds : List Document) (slots : List (Option (Except Fault Value))) (i : Nat) :
    List (Option (Except Fault Value)) :=
  slots.set i (ds[i]?.map fun d => t.accept d.value)

section
variable (slots : List (Option (Except Fault Value)))

theorem length_fill (i : Nat) : (fill t ds slots i).length = slots.length := List.length_set

theorem getElem?_fill {i j : Nat} (hj : j < slots.length) :
    (fill t ds slots i)[j]? =
      if i = j then some (ds[j]?.map fun d => t.accept d.value) else slots[j]? := by
  rw [fill, List.getElem?_set]
  by_cases h : i = j
  · subst h
    simp [hj]
  · simp [h]

theorem getElem?_foldl_fill {order : List Nat} {j : Nat} (hj : j < slots.length) :
    (order.foldl (fill t ds) slots)[j]? =
      if j ∈ order then some (ds[j]?.map fun d => t.accept d.value) else slots[j]? := by
  induction order generalizing slots with
  | nil => simp
  | cons i order ih =>
    rw [List.foldl_cons, ih _ (by rwa [length_fill]), getElem?_fill slots hj]
    by_cases ho : j ∈ order
    · simp [ho]
    · simp [ho, eq_comm]

theorem length_foldl_fill (order : List Nat) :
    (order.foldl (fill t ds) slots).length = slots.length := by
  induction order generalizing slots with
  | nil => rfl
  | cons i order ih => rw [List.foldl_cons, ih, length_fill]

end

theorem foldl_fill_eq {order : List Nat} (h : ∀ i < ds.length, i ∈ order) :
    order.foldl (fill t ds) (List.replicate ds.length none) =
      ds.map fun d => some (t.accept d.value) := by
  -- Slot by slot, as the turns come in no known order.
  apply List.ext_getElem?
  intro j
  by_cases hj : j < ds.length
  · rw [getElem?_foldl_fill _ (by rwa [List.length_replicate]), if_pos (h j hj)]
    simp [hj]
  · rw [List.getElem?_eq_none (by rw [length_foldl_fill, List.length_replicate]; omega),
      List.getElem?_eq_none (by rw [List.length_map]; omega)]

theorem report_of_filled {colour : Bool} {order : List Nat} {slots : List (Except Fault Value)}
    (h : c.noOp = false) (hp : Prepared files c t ds) (ho : ∀ i < ds.length, i ∈ order)
    (hs : order.foldl (fill t ds) (List.replicate ds.length none) = slots.map some) :
    runCheck colour files c = report colour c.quiet files ((ds.map Document.label).zip slots) := by
  have hslots : slots = ds.map fun d => t.accept d.value := by
    apply List.map_injective_iff.2 (Option.some_injective _)
    rw [← hs, foldl_fill_eq ho, List.map_map]
    rfl
  rw [runCheck_of_prepared h hp, hslots, List.zip_map', results]

/-- With a shape and all documents at hand, every document gets its line by its own outcome, and the
run is the same in whatever order the documents are checked; the exit code and the last word count
the rejected ones. Otherwise nothing is written. -/
theorem check_reports_each_document (colour : Bool) (files : Files) (c : CheckSettings)
    (h : c.noOp = false) :
    (∀ t ds, Prepared files c t ds →
      (run colour files (.check c)).stdout =
          String.join ((ds.filter fun d => !c.quiet || rejects t d).map (line colour t)) ∧
        (∀ order : List Nat, (∀ i < ds.length, i ∈ order) →
          ∃ slots, order.foldl (fill t ds) (List.replicate ds.length none) = slots.map some ∧
            slots = ds.map (fun d => t.accept d.value) ∧
            run colour files (.check c) =
              report colour c.quiet files ((ds.map Document.label).zip slots)) ∧
        (run colour files (.check c)).stderr =
          (if (ds.filter (rejects t)).length = 0 then ""
            else toString (ds.filter (rejects t)).length ++ " of " ++ toString ds.length
              ++ " documents failed\n") ∧
        (run colour files (.check c)).exit =
          if (ds.filter (rejects t)).length = 0 then 0 else 1) ∧
    ((∀ t ds, ¬ Prepared files c t ds) →
      (run colour files (.check c)).exit = 2 ∧ (run colour files (.check c)).stdout = "") := by
  constructor
  · intro t ds hp
    have hlength : (results t ds).length = ds.length := List.length_map _
    refine ⟨?_, fun order ho => ?_, ?_, ?_⟩
    · rw [run, runCheck_of_prepared h hp]
      exact join_verdicts colour c.quiet
    · have hs := @foldl_fill_eq t ds order ho
      refine ⟨_, ?_, rfl, report_of_filled h hp ho ?_⟩ <;> rw [hs, List.map_map] <;> rfl
    · rw [run, runCheck_of_prepared h hp, ← length_failed, ← hlength]
      rfl
    · rw [run, runCheck_of_prepared h hp, ← length_failed]
      rfl
  · intro hp
    obtain ⟨f, hf⟩ := runCheck_of_not_prepared colour h hp
    rw [run, hf]
    exact ⟨rfl, rfl⟩

def sampleFiles : Files where
  nodes :=
    [(["work"], .directory),
      (["work", "type.json"], .text (Shape.primitive .boolean).document.compact),
      (["work", "a.json"], .text (Json.boolean true).compact),
      (["work", "b.json"], .text Json.null.compact)]
  working := ["work"]

def sampleCheck : CheckSettings where
  type := ⟨"type.json", schemaVersion⟩
  pointer := none
  inputs := ["b.json", "a.json", "b.json"]
  quiet := false
  noOp := false

theorem prepared_sampleCheck :
    Prepared sampleFiles sampleCheck (.primitive .boolean)
      [⟨"b.json", .null⟩, ⟨"a.json", .boolean true⟩, ⟨"b.json", .null⟩] := by
  have hn : Json.ofText Json.null.compact = .ok .null :=
    Json.ofText_compact_eq_ok trivial rfl
  have hb : Json.ofText (Json.boolean true).compact = .ok (.boolean true) :=
    Json.ofText_compact_eq_ok trivial rfl
  have ht : Json.ofText (Shape.primitive .boolean).document.compact =
      .ok (Shape.primitive .boolean).document :=
    Json.ofText_compact_eq_ok (Shape.wellFormed_document _) rfl
  have hnull : Holds sampleFiles none "b.json" ⟨"b.json", .null⟩ := .document rfl hn (.whole _)
  have htrue : Holds sampleFiles none "a.json" ⟨"a.json", .boolean true⟩ :=
    .document rfl hb (.whole _)
  refine ⟨rfl, ⟨_, rfl, ?_⟩, [["b.json"], ["a.json"], ["b.json"]], ?_, ?_⟩
  · exact Shape.decodeText_of_ofText ht
  · exact .cons (.path (by decide)) (.cons (.path (by decide)) (.cons (.path (by decide)) .nil))
  · exact .cons hnull (.cons htrue (.cons hnull .nil))

theorem check_reports_sample :
    sampleCheck.noOp = false ∧
      (run false sampleFiles (.check sampleCheck)).stdout =
        "FAIL b.json: Value of type null is not expected type boolean\n" ++ "ok a.json\n" ++
          "FAIL b.json: Value of type null is not expected type boolean\n" ∧
      (run false sampleFiles (.check sampleCheck)).stderr = "2 of 3 documents failed\n" ∧
      (run false sampleFiles (.check sampleCheck)).exit = 1 := by
  obtain ⟨hout, -, herr, hexit⟩ :=
    (check_reports_each_document false sampleFiles sampleCheck rfl).1 _ _ prepared_sampleCheck
  refine ⟨rfl, hout.trans ?_, herr.trans ?_, hexit.trans ?_⟩
  · decide +kernel
  · rfl
  · rfl

end Conformance.Command
