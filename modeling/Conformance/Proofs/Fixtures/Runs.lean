import Conformance.Proofs.Files.Contents
import Conformance.Proofs.Files.Listing
import Conformance.Proofs.Fixtures.LoadedCases
import Mathlib.Data.List.Forall2

/-!
# A run of fixtures

A run goes through the cases of all files one after the other, in the order of
the files and of the cases in them. As long as each case sets exactly one
expectation it counts the case and writes a line for it if it fails; the first
case that does not ends the run. What a case is compared with is its
`libraryResult`, so the run says what the library says.
-/
namespace Conformance

namespace Case

def SetsOne (c : Case) : Prop := c.ok ≠ c.error.isSome

instance (c : Case) : Decidable c.SetsOne := inferInstanceAs (Decidable (_ ≠ _))

def unclear (c : Case) : String :=
  "case `" ++ c.name ++ "` must set exactly one of `ok` or `error`"

section
variable (language : PatternLanguage) (c : Case)

def PatternValid : Prop := ∀ pattern ∈ c.error, ∃ test, language pattern = .ok test

inductive Passes : Prop
  | success {v : Value} (ok : c.ok = true) (result : c.libraryResult = .ok v)
  | failure {pattern : String} {test : String → Bool} {f : Fault} (error : c.error = some pattern)
      (valid : language pattern = .ok test) (result : c.libraryResult = .error f)
      (met : test f.message = true)

def complaint? : Option String :=
  match c.expectation language with
  | .ok expectation => expectation.complaint? c.libraryResult
  | .error _ => none

end

section
variable {language : PatternLanguage} {c : Case}

theorem expectation_of_setsOne (h : c.SetsOne) (hp : c.PatternValid language) :
    (c.ok = true ∧ c.error = none ∧ c.expectation language = .ok .success) ∨
      ∃ pattern test, c.ok = false ∧ c.error = some pattern ∧ language pattern = .ok test ∧
        c.expectation language = .ok (.failure pattern test) := by
  unfold SetsOne at h
  cases ho : c.ok with
  | true =>
    cases he : c.error with
    | none => exact .inl ⟨rfl, rfl, by rw [expectation, ho, he]⟩
    | some pattern => simp [ho, he] at h
  | false =>
    cases he : c.error with
    | none => simp [ho, he] at h
    | some pattern =>
      obtain ⟨test, ht⟩ := hp pattern he
      refine .inr ⟨pattern, test, rfl, rfl, ht, ?_⟩
      simp only [expectation, ho, he, ht]
      rfl

theorem expectation_of_not_setsOne (h : ¬ c.SetsOne) :
    c.expectation language = .error c.unclear := by
  have h : c.ok = c.error.isSome := not_not.1 h
  rw [expectation]
  cases ho : c.ok with
  | true =>
    obtain ⟨pattern, he⟩ := Option.isSome_iff_exists.1 (h ▸ ho)
    rw [he]
    rfl
  | false =>
    have he : c.error = none := Option.not_isSome_iff_eq_none.1 (by rw [← h, ho]; decide)
    rw [he]
    rfl

theorem complaint?_eq_none_iff (h : c.SetsOne) (hp : c.PatternValid language) :
    c.complaint? language = none ↔ c.Passes language := by
  rcases expectation_of_setsOne h hp with ⟨ho, he, hx⟩ | ⟨pattern, test, ho, he, ht, hx⟩
  · rw [complaint?, hx]
    constructor
    · intro hn
      cases hr : c.libraryResult with
      | ok v => exact .success ho hr
      | error f =>
        rw [hr] at hn
        cases hn
    · rintro (⟨-, hr⟩ | ⟨he', -, -, -⟩)
      · rw [hr]
        rfl
      · rw [he] at he'
        cases he'
  · rw [complaint?, hx]
    constructor
    · intro hn
      cases hr : c.libraryResult with
      | ok v =>
        rw [hr] at hn
        cases hn
      | error f =>
        rw [hr] at hn
        refine .failure he ht hr ?_
        by_contra hm
        simp [Expectation.complaint?, hm] at hn
    · rintro (⟨ho', -⟩ | ⟨he', ht', hr, hm⟩)
      · rw [ho] at ho'
        cases ho'
      · rw [he] at he'
        cases he'
        rw [ht] at ht'
        cases ht'
        simp [hr, Expectation.complaint?, hm]

end
end Case

namespace Fixtures

abbrev Entry := String × Case

def listing (paths : List String) (groups : List (List Case)) : List Entry :=
  (List.zipWith (fun path cases => cases.map (path, ·)) paths groups).flatten

section
variable (language : PatternLanguage)

def failureLine (e : Entry) : Option String :=
  (e.2.complaint? language).map fun why =>
    "❌ " ++ e.1 ++ ": " ++ e.2.name ++ ": " ++ why ++ "\n"

def failureLines (es : List Entry) : List String := es.filterMap (failureLine language)

def Tally.add (tally : Tally) (es : List Entry) : Tally where
  passed := tally.passed + (es.length - (failureLines language es).length)
  failed := tally.failed + (failureLines language es).length
  written := tally.written ++ String.join (failureLines language es)

def stepEntry (tally : Tally) (e : Entry) : Except Abort Tally := runCase language e.1 tally e.2

end

section
variable {language : PatternLanguage} {files : Files} {tally : Tally} {e : Entry} {es : List Entry}

/-- An entry that a run can get over, or that ends it for want of a clear expectation. -/
structure Ready (language : PatternLanguage) (e : Entry) : Prop where
  result : e.2.result = e.2.libraryResult
  pattern : e.2.PatternValid language

theorem length_failureLines_le (language : PatternLanguage) (es : List Entry) :
    (failureLines language es).length ≤ es.length := List.length_filterMap_le _ _

theorem add_nil : tally.add language [] = tally := by
  simp [Tally.add, failureLines]

theorem add_cons : (tally.add language [e]).add language es = tally.add language (e :: es) := by
  have h := length_failureLines_le language es
  unfold failureLines at h
  cases hl : failureLine language e with
  | none =>
    simp only [Tally.add, failureLines, List.filterMap_cons, hl, List.filterMap_nil]
    simp only [List.length_cons, List.length_nil, Tally.mk.injEq]
    refine ⟨by omega, by omega, ?_⟩
    simp
  | some line =>
    simp only [Tally.add, failureLines, List.filterMap_cons, hl, List.filterMap_nil]
    simp only [List.length_cons, List.length_nil, Tally.mk.injEq]
    refine ⟨by omega, by omega, ?_⟩
    simp [String.append_assoc]

theorem stepEntry_of_setsOne (he : Ready language e) (h : e.2.SetsOne) :
    stepEntry language tally e = .ok (tally.add language [e]) := by
  obtain ⟨x, hx⟩ : ∃ x, e.2.expectation language = .ok x := by
    rcases Case.expectation_of_setsOne h he.pattern with ⟨-, -, hx⟩ | ⟨_, _, -, -, -, hx⟩
    · exact ⟨_, hx⟩
    · exact ⟨_, hx⟩
  have hc : e.2.complaint? language = x.complaint? e.2.libraryResult := by
    rw [Case.complaint?, hx]
  simp only [stepEntry, runCase, hx, he.result, ← hc]
  cases hl : e.2.complaint? language with
  | none => simp [Tally.add, failureLines, failureLine, hl]
  | some why => simp [Tally.add, failureLines, failureLine, hl, String.append_assoc]

theorem stepEntry_of_not_setsOne (h : ¬ e.2.SetsOne) :
    stepEntry language tally e = .error ⟨tally.written, e.2.unclear⟩ := by
  simp only [stepEntry, runCase, Case.expectation_of_not_setsOne h]

theorem runEntries_of_setsOne (he : ∀ e ∈ es, Ready language e) (h : ∀ e ∈ es, e.2.SetsOne) :
    es.foldlM (stepEntry language) tally = .ok (tally.add language es) := by
  induction es generalizing tally with
  | nil => rw [add_nil]; rfl
  | cons e es ih =>
    obtain ⟨hr, hrs⟩ := List.forall_mem_cons.1 he
    obtain ⟨h1, hs⟩ := List.forall_mem_cons.1 h
    rw [List.foldlM_cons, stepEntry_of_setsOne hr h1]
    exact (ih hrs hs).trans (congrArg Except.ok add_cons)

/-- The first case that does not set exactly one expectation ends the run. -/
theorem runEntries_of_not_setsOne {before after : List Entry}
    (he : ∀ e ∈ before, Ready language e) (hb : ∀ e ∈ before, e.2.SetsOne) (h : ¬ e.2.SetsOne) :
    (before ++ e :: after).foldlM (stepEntry language) tally =
      .error ⟨(tally.add language before).written, e.2.unclear⟩ := by
  rw [List.foldlM_append, runEntries_of_setsOne he hb]
  change (e :: after).foldlM (stepEntry language) (tally.add language before) = _
  rw [List.foldlM_cons, stepEntry_of_not_setsOne h]
  rfl

theorem exists_first_not_setsOne (h : ∃ e ∈ es, ¬ e.2.SetsOne) :
    ∃ before e after, es = before ++ e :: after ∧ (∀ e ∈ before, e.2.SetsOne) ∧ ¬ e.2.SetsOne := by
  obtain ⟨e, he⟩ := Option.isSome_iff_exists.1 (List.find?_isSome.2
    (h.imp fun e he => ⟨he.1, decide_eq_true he.2⟩))
  obtain ⟨hn, before, after, rfl, hb⟩ := List.find?_eq_some_iff_append.1 he
  refine ⟨before, e, after, rfl, ?_, of_decide_eq_true hn⟩
  intro b hm
  simpa using hb b hm

theorem runCases_eq (file : String) (cases : List Case) :
    runCases language file tally cases =
      (cases.map (file, ·)).foldlM (stepEntry language) tally := by
  induction cases generalizing tally with
  | nil => rfl
  | cons c cases ih =>
    rw [runCases, List.map_cons, List.foldlM_cons, stepEntry]
    cases runCase language file tally c with
    | error a => rfl
    | ok tally => exact ih

theorem runFiles_eq {paths : List String} {groups : List (List Case)}
    (h : List.Forall₂ (fun path cases => loadCases files path = .ok cases) paths groups) :
    runFiles language files tally paths =
      (listing paths groups).foldlM (stepEntry language) tally := by
  induction h generalizing tally with
  | nil => rfl
  | @cons path cases paths groups hl _ ih =>
    have hlist : listing (path :: paths) (cases :: groups) =
        cases.map (path, ·) ++ listing paths groups := rfl
    rw [runFiles, hl, hlist, List.foldlM_append, ← runCases_eq]
    dsimp only
    cases runCases language path tally cases with
    | error a => rfl
    | ok tally => exact ih

theorem map_snd_listing {paths : List String} {groups : List (List Case)}
    (h : paths.length = groups.length) :
    (listing paths groups).map Prod.snd = groups.flatten := by
  induction paths generalizing groups with
  | nil =>
    cases groups with
    | nil => rfl
    | cons cases groups => cases h
  | cons path paths ih =>
    cases groups with
    | nil => cases h
    | cons cases groups =>
      have hlist : listing (path :: paths) (cases :: groups) =
          cases.map (path, ·) ++ listing paths groups := rfl
      rw [hlist, List.map_append, ih (Nat.succ.inj h), List.map_map, List.flatten_cons]
      congr 1
      exact List.map_id cases

theorem fixtureFiles_eq_ok {directory : String} {paths : List String}
    (h : fixtureFiles files directory = .ok paths) :
    ∃ names : List String, paths = names.map (Path.join directory) ∧ names.Pairwise (· ≤ ·) ∧
      (files.Distinct → names.Nodup) ∧ ∀ name, name ∈ names ↔
        Path.hasExtension "json" name = true ∧ ∃ node, files.HasEntry directory name node := by
  obtain ⟨entries, hl, rfl⟩ := Shape.map_eq_ok.1 h
  obtain ⟨hsorted, hdistinct, hmem⟩ := Files.list_eq_ok hl
  refine ⟨(entries.filter fun e => Path.hasExtension "json" e.1).map Prod.fst, ?_, ?_, ?_, ?_⟩
  · rw [List.map_map]
    rfl
  · exact List.pairwise_map.2 (hsorted.filter _)
  · intro hd
    exact List.pairwise_map.2 ((hdistinct hd).filter _)
  · intro name
    simp only [List.mem_map, List.mem_filter, Prod.exists, exists_and_right, exists_eq_right,
      hmem]
    exact and_comm

/-- All fixture files of a directory hold cases that the library can be asked about. -/
structure Loaded (language : PatternLanguage) (files : Files) (directory : String)
    (paths : List String) (groups : List (List Case)) : Prop where
  listed : fixtureFiles files directory = .ok paths
  cases : List.Forall₂ (fun path cases => loadCases files path = .ok cases) paths groups
  patterns : ∀ c ∈ groups.flatten, c.PatternValid language
  integers : ∀ c ∈ groups.flatten, c.type.OnlyIntegers

variable {directory : String} {paths : List String} {groups : List (List Case)}

theorem Loaded.map_snd (h : Loaded language files directory paths groups) :
    (listing paths groups).map Prod.snd = groups.flatten := map_snd_listing h.cases.length_eq

theorem readable_of_loaded
    (h : List.Forall₂ (fun path cases => loadCases files path = .ok cases) paths groups) :
    ∀ c ∈ groups.flatten, c.type.Readable Reader.depthLimit := by
  induction h with
  | nil => exact nofun
  | cons hl _ ih =>
    rw [List.flatten_cons]
    exact List.forall_mem_append.2 ⟨readable_of_loadCases hl, ih⟩

theorem Loaded.ready (h : Loaded language files directory paths groups) :
    ∀ e ∈ listing paths groups, Ready language e := by
  intro e he
  have hc : e.2 ∈ groups.flatten := h.map_snd ▸ List.mem_map_of_mem he
  exact ⟨Case.result_eq_libraryResult (readable_of_loaded h.cases e.2 hc) (h.integers e.2 hc),
    h.patterns e.2 hc⟩

theorem Loaded.run_eq (h : Loaded language files directory paths groups) :
    runDirectory language files directory =
      match (listing paths groups).foldlM (stepEntry language) ⟨0, 0, ""⟩ with
      | .error e => aborted files e
      | .ok tally =>
        ⟨if tally.failed = 0 then 0 else 1, "",
          tally.written ++ "—— " ++ toString tally.passed ++ " passed, "
            ++ toString tally.failed ++ " failed ——\n", files⟩ := by
  have hrun := @runFiles_eq language files ⟨0, 0, ""⟩ paths groups h.cases
  cases hf : (listing paths groups).foldlM (stepEntry language) ⟨0, 0, ""⟩ <;>
    simp only [runDirectory, h.listed, hrun, hf]

end

/-- The fixture files of a directory come in the order of their names, each of them once. If every
case in them sets exactly one expectation, a case gets no complaint exactly when it passes by the
result of the library, the run writes a line for each other case in the order of files and cases,
and the summary and the exit code count them. If a case does not, the first one that does not ends
the run. -/
theorem run_judges_by_library (language : PatternLanguage) (files : Files) (directory : String)
    (paths : List String) (groups : List (List Case))
    (h : Loaded language files directory paths groups) :
    (∃ names : List String, paths = names.map (Path.join directory) ∧
      names.Pairwise (· ≤ ·) ∧ (files.Distinct → names.Nodup) ∧ ∀ name, name ∈ names ↔
        Path.hasExtension "json" name = true ∧ ∃ node, files.HasEntry directory name node) ∧
    ((∀ c ∈ groups.flatten, c.SetsOne) →
      (∀ c ∈ groups.flatten, c.complaint? language = none ↔ c.Passes language) ∧
      ∃ passed failed, passed + failed = groups.flatten.length ∧
        failed = (failureLines language (listing paths groups)).length ∧
        runDirectory language files directory =
          ⟨if failed = 0 then 0 else 1, "",
            String.join (failureLines language (listing paths groups)) ++ "—— "
              ++ toString passed ++ " passed, " ++ toString failed ++ " failed ——\n", files⟩) ∧
    ((∃ c ∈ groups.flatten, ¬ c.SetsOne) →
      ∃ before file c after, listing paths groups = before ++ (file, c) :: after ∧
        (∀ e ∈ before, e.2.SetsOne) ∧ ¬ c.SetsOne ∧
        runDirectory language files directory =
          ⟨2, "", String.join (failureLines language before) ++ "error: " ++ c.unclear ++ "\n",
            files⟩) := by
  refine ⟨fixtureFiles_eq_ok h.listed, fun hone => ⟨fun c hc => ?_, ?_⟩, fun hnot => ?_⟩
  · exact Case.complaint?_eq_none_iff (hone c hc) (h.patterns c hc)
  · have hes : ∀ e ∈ listing paths groups, e.2.SetsOne := by
      intro e he
      exact hone e.2 (h.map_snd ▸ List.mem_map_of_mem he)
    have hlen : (listing paths groups).length = groups.flatten.length := by
      rw [← h.map_snd, List.length_map]
    have hle := length_failureLines_le language (listing paths groups)
    refine ⟨_, _, Nat.sub_add_cancel (hlen ▸ hle), rfl, ?_⟩
    rw [h.run_eq, runEntries_of_setsOne h.ready hes]
    simp [Tally.add, hlen]
  · have hes : ∃ e ∈ listing paths groups, ¬ e.2.SetsOne := by
      obtain ⟨c, hc, hn⟩ := hnot
      rw [← h.map_snd] at hc
      obtain ⟨e, he, rfl⟩ := List.mem_map.1 hc
      exact ⟨e, he, hn⟩
    obtain ⟨before, ⟨file, c⟩, after, hl, hb, hn⟩ := exists_first_not_setsOne hes
    refine ⟨before, file, c, after, hl, hb, hn, ?_⟩
    have hready : ∀ e ∈ before, Ready language e := fun e he =>
      h.ready e (hl ▸ List.mem_append_left _ he)
    rw [h.run_eq, hl, runEntries_of_not_setsOne hready hb hn]
    simp [aborted, Tally.add]

def sampleFixtures : Files where
  nodes :=
    [(["work"], .directory), (["work", "fixtures"], .directory),
      (["work", "fixtures", "a.json"],
        .text ("[\x7b\"name\": \"one\", \"type\": \x7b\"tag\": \"primitive\", \"type\": \"string\"\x7d, "
          ++ "\"value\": true, \"ok\": true\x7d]")),
      (["work", "fixtures", "b.json"],
        .text "[[\"two\", \x7b\"tag\": \"array\"\x7d, 0, 2, false, \"v2\"]]"),
      (["work", "fixtures", "notes"], .text "")]
  working := ["work"]

def sampleGroups : List (List Case) :=
  [[⟨"one", .object [("tag", .string "primitive"), ("type", .string "string")], .boolean true, none,
      true, none⟩],
    [⟨"two", .object [("tag", .string "array")],
      .number (.integer 0 (by decide) (by decide)), some 2, false, some "v2"⟩]]

theorem fixtureFiles_sampleFixtures :
    fixtureFiles sampleFixtures "fixtures" = .ok ["fixtures/a.json", "fixtures/b.json"] := by
  have hl : sampleFixtures.locate "fixtures" = .ok ["work", "fixtures"] := by decide +kernel
  have hd : sampleFixtures.node? ["work", "fixtures"] = some .directory := by decide +kernel
  have hb : sampleFixtures.below ["work", "fixtures"] =
      (sampleFixtures.nodes.drop 2).map fun e => (e.1.drop 2, e.2) := by
    rw [Files.below, List.mergeSort_of_pairwise (by decide +kernel)]
    rfl
  simp only [fixtureFiles, Files.list, hl, hd, hb]
  decide +kernel

theorem loaded_sampleFixtures :
    Loaded Pattern.language sampleFixtures "fixtures" ["fixtures/a.json", "fixtures/b.json"]
      sampleGroups where
  listed := fixtureFiles_sampleFixtures
  cases := by
    have ha : sampleFixtures.read "fixtures/a.json" = .ok _ :=
      Files.read_of_node? (l := ["work", "fixtures", "a.json"]) (by decide +kernel) rfl rfl
    have hb : sampleFixtures.read "fixtures/b.json" = .ok _ :=
      Files.read_of_node? (l := ["work", "fixtures", "b.json"]) (by decide +kernel) rfl rfl
    exact .cons (loadCases_eq_ok_iff.2 ⟨_, _, ha, by with_unfolding_all rfl⟩)
      (.cons (loadCases_eq_ok_iff.2 ⟨_, _, hb, by with_unfolding_all rfl⟩) .nil)
  patterns := fun c _ pattern _ => ⟨_, rfl⟩
  integers := by
    simp [sampleGroups, Json.OnlyIntegers, Json.OnlyIntegersOfMembers]

theorem run_sampleFixtures :
    Loaded Pattern.language sampleFixtures "fixtures" ["fixtures/a.json", "fixtures/b.json"]
        sampleGroups ∧
      runDirectory Pattern.language sampleFixtures "fixtures" =
        ⟨1, "", "❌ fixtures/a.json: one: expected ok, got: Value of type boolean is not expected "
          ++ "type string\n—— 1 passed, 1 failed ——\n", sampleFixtures⟩ := by
  have hlines : failureLines Pattern.language
      (listing ["fixtures/a.json", "fixtures/b.json"] sampleGroups) =
      ["❌ fixtures/a.json: one: expected ok, got: Value of type boolean is not expected "
        ++ "type string\n"] := by
    decide +kernel
  obtain ⟨-, hone, -⟩ := run_judges_by_library _ _ _ _ _ loaded_sampleFixtures
  obtain ⟨-, passed, failed, hsum, hfailed, hrun⟩ := hone (by decide)
  rw [hlines] at hfailed hrun
  obtain rfl : failed = 1 := hfailed
  obtain rfl : passed = 1 := Nat.succ.inj hsum
  exact ⟨loaded_sampleFixtures, hrun.trans rfl⟩

end Fixtures
end Conformance
