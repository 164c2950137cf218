import Conformance.Proofs.Files.Contents
import Conformance.Proofs.Fixtures.Runs
import Conformance.Proofs.Json.TypedReaders

/-!
# What a summary accounts for

A run that gets to its summary has counted the elements of one array for each
fixture file: the array that the text of the file begins with. This is the whole
text of the file exactly when no more than white space stands behind it
(`Fixture.whole_iff`), and a run does not look whether it does. Cases in what
follows the first array are never run, and the summary does not show it.
-/
namespace Conformance

theorem Reader.atEnd_eq_ok_iff {s : List Char} : atEnd s = .ok () ↔ skipBlanks s = [] := by
  unfold atEnd
  cases skipBlanks s <;> simp

theorem Case.faithful_codec : Case.codec.Faithful := by
  have hnumber (n : UInt32) : Codec.u32.tree .null ≠ .ok n := nofun
  have hstring (s : String) : Codec.string.tree .null ≠ .ok s := nofun
  apply RecordCodec.faithful_codec rfl
  simp only [List.forall_mem_cons, List.not_mem_nil, false_imp_iff, implies_true, and_true]
  refine ⟨?_, ?_, ?_, ?_, ?_, ?_⟩ <;> apply RecordCodec.faithful_member
  · exact Codec.faithful_scalar _ _ _
  · exact Codec.faithful_document
  · exact Codec.faithful_document
  · exact Codec.faithful_optional (Codec.faithful_scalar _ _ _) hnumber
  · exact Codec.faithful_scalar _ _ _
  · exact Codec.faithful_optional (Codec.faithful_scalar _ _ _) hstring

namespace Fixtures

/-- A fixture file: its text begins with an array of cases, and `rest` is what follows that. -/
structure Fixture (files : Files) (directory : String) where
  name : String
  source : String
  items : List Json
  cases : List Case
  rest : List Char
  read : files.read (Path.join directory name) = .ok source
  array : (Reader.document Reader.depthLimit).run source.toList = .ok (.array items, rest)
  decoded : List.Forall₂ (fun j c => Case.codec.tree j = .ok c) items cases

/-- The whole text of each fixture file of the directory is one array of cases. -/
def AllWhole (files : Files) (directory : String) : Prop :=
  ∀ name node, Path.hasExtension "json" name = true → files.HasEntry directory name node →
    ∃ source items cases, files.read (Path.join directory name) = .ok source ∧
      Json.ofText source = .ok (.array items) ∧
      List.Forall₂ (fun j c => Case.codec.tree j = .ok c) items cases

section
variable {language : PatternLanguage} {files : Files} {directory name file : String}
  {tally tally' : Tally} {c : Case} {cases : List Case}

theorem Fixture.ofText_eq_ok_iff (f : Fixture files directory) {items : List Json} :
    Json.ofText f.source = .ok (.array items) ↔ items = f.items ∧ skipBlanks f.rest = [] := by
  rw [Json.ofText, Reader.runToEnd_eq_ok_iff]
  simp [f.array, Reader.atEnd_eq_ok_iff, @eq_comm _ _ items]

theorem exists_fixture (h : loadCases files (Path.join directory name) = .ok cases) :
    ∃ f : Fixture files directory, f.name = name ∧ f.cases = cases := by
  obtain ⟨source, rest, hread, hr⟩ := loadCases_eq_ok_iff.1 h
  obtain ⟨j, hj, hd⟩ := Codec.faithful_list Case.faithful_codec _ _ _ _ hr
  obtain ⟨items, rfl, hall⟩ := Codec.tree_list_eq_ok_iff.1 hd
  exact ⟨⟨name, source, items, cases, rest, hread, hj, hall⟩, rfl, rfl⟩

def Tally.count (tally : Tally) : Nat := tally.passed + tally.failed

theorem count_of_runCase (h : runCase language file tally c = .ok tally') :
    tally'.count = tally.count + 1 := by
  unfold runCase at h
  split at h
  · cases h
  · split at h <;> cases h <;> simp only [Tally.count] <;> omega

theorem count_of_runCases (h : runCases language file tally cases = .ok tally') :
    tally'.count = tally.count + cases.length := by
  induction cases generalizing tally with
  | nil =>
    cases h
    rfl
  | cons c cases ih =>
    rw [runCases] at h
    split at h
    · cases h
    · rename_i tally'' hc
      rw [ih h, count_of_runCase hc, List.length_cons]
      omega

theorem fixtures_of_runFiles {names : List String}
    (h : runFiles language files tally (names.map (Path.join directory)) = .ok tally') :
    ∃ fixtures : List (Fixture files directory), fixtures.map Fixture.name = names ∧
      tally'.count = tally.count + (fixtures.map fun f => f.items.length).sum := by
  induction names generalizing tally with
  | nil =>
    cases h
    exact ⟨[], rfl, rfl⟩
  | cons name names ih =>
    rw [List.map_cons, runFiles] at h
    split at h
    · cases h
    · rename_i cases hl
      split at h
      · cases h
      · rename_i tally'' hc
        obtain ⟨f, rfl, rfl⟩ := exists_fixture hl
        obtain ⟨fixtures, rfl, hsum⟩ := ih h
        refine ⟨f :: fixtures, rfl, ?_⟩
        rw [hsum, count_of_runCases hc, List.map_cons, List.sum_cons, f.decoded.length_eq]
        omega

theorem exists_tally_of_exit (h : (runDirectory language files directory).exit ≠ 2) :
    ∃ paths tally, fixtureFiles files directory = .ok paths ∧
      runFiles language files ⟨0, 0, ""⟩ paths = .ok tally ∧
      runDirectory language files directory =
        ⟨if tally.failed = 0 then 0 else 1, "",
          tally.written ++ "—— " ++ toString tally.passed ++ " passed, "
            ++ toString tally.failed ++ " failed ——\n", files⟩ := by
  unfold runDirectory at h ⊢
  split at h
  · exact absurd rfl h
  · rename_i paths hp
    split at h
    · exact absurd rfl h
    · rename_i tally ht
      exact ⟨paths, tally, hp, ht, rfl⟩

theorem allWhole_iff {fixtures : List (Fixture files directory)}
    (hnames : ∀ name, name ∈ fixtures.map Fixture.name ↔
      Path.hasExtension "json" name = true ∧ ∃ node, files.HasEntry directory name node) :
    AllWhole files directory ↔ ∀ f ∈ fixtures, skipBlanks f.rest = [] := by
  constructor
  · intro h f hf
    obtain ⟨hext, node, hentry⟩ := (hnames f.name).1 (List.mem_map_of_mem hf)
    obtain ⟨source, items, cases, hread, hj, -⟩ := h f.name node hext hentry
    rw [f.read] at hread
    cases hread
    exact (f.ofText_eq_ok_iff.1 hj).2
  · intro h name node hext hentry
    obtain ⟨f, hf, rfl⟩ := List.mem_map.1 ((hnames name).2 ⟨hext, node, hentry⟩)
    exact ⟨f.source, f.items, f.cases, f.read, f.ofText_eq_ok_iff.2 ⟨rfl, h f hf⟩, f.decoded⟩

end

/-- A run that gets to its summary has read an array of cases at the front of each fixture file, and
the numbers of the summary add up to the elements of these arrays. The arrays are the whole texts
exactly when nothing but white space follows any of them. -/
theorem summary_accounts_for_first_arrays (language : PatternLanguage) (files : Files)
    (directory : String) (h : (runDirectory language files directory).exit ≠ 2) :
    ∃ fixtures : List (Fixture files directory),
      (fixtures.map Fixture.name).Pairwise (· ≤ ·) ∧
      (files.Distinct → (fixtures.map Fixture.name).Nodup) ∧
      (∀ name, name ∈ fixtures.map Fixture.name ↔
        Path.hasExtension "json" name = true ∧ ∃ node, files.HasEntry directory name node) ∧
      (∃ passed failed written, passed + failed = (fixtures.map fun f => f.items.length).sum ∧
        runDirectory language files directory =
          ⟨if failed = 0 then 0 else 1, "", written ++ "—— " ++ toString passed ++ " passed, "
            ++ toString failed ++ " failed ——\n", files⟩) ∧
      (AllWhole files directory ↔ ∀ f ∈ fixtures, skipBlanks f.rest = []) := by
  obtain ⟨paths, tally, hp, ht, hrun⟩ := exists_tally_of_exit h
  obtain ⟨names, rfl, hsorted, hdistinct, hnames⟩ := fixtureFiles_eq_ok hp
  obtain ⟨fixtures, rfl, hcount⟩ := fixtures_of_runFiles ht
  have hsum : tally.passed + tally.failed = (fixtures.map fun f => f.items.length).sum :=
    hcount.trans (Nat.zero_add _)
  exact ⟨fixtures, hsorted, hdistinct, hnames,
    ⟨tally.passed, tally.failed, tally.written, hsum, hrun⟩, allWhole_iff hnames⟩

/-- No cases, and behind them a list of one case, which would fail. -/
def secondList : String :=
  "[]\n[\x7b\"name\": \"one\", \"type\": \x7b\"tag\": \"primitive\", \"type\": \"string\"\x7d, "
    ++ "\"value\": 5, \"ok\": true\x7d]"

def secondListFixtures : Files where
  nodes := [(["fixtures"], .directory), (["fixtures", "a.json"], .text secondList)]
  working := []

theorem fixtureFiles_secondList :
    fixtureFiles secondListFixtures "fixtures" = .ok ["fixtures/a.json"] := by
  have hl : secondListFixtures.locate "fixtures" = .ok ["fixtures"] := by decide +kernel
  have hd : secondListFixtures.node? ["fixtures"] = some .directory := by decide +kernel
  have hb : secondListFixtures.below ["fixtures"] = [(["a.json"], .text secondList)] := by
    rw [Files.below, List.mergeSort_of_pairwise (by decide +kernel)]
    rfl
  simp only [fixtureFiles, Files.list, hl, hd, hb]
  decide +kernel

theorem read_secondList : secondListFixtures.read "fixtures/a.json" = .ok secondList :=
  Files.read_of_node? (l := ["fixtures", "a.json"]) (by decide +kernel) rfl rfl

theorem run_secondList (language : PatternLanguage) :
    runDirectory language secondListFixtures "fixtures" =
      ⟨0, "", "—— 0 passed, 0 failed ——\n", secondListFixtures⟩ := by
  have hl : loadCases secondListFixtures "fixtures/a.json" = .ok [] :=
    loadCases_eq_ok_iff.2 ⟨secondList, _, read_secondList, by with_unfolding_all rfl⟩
  simp only [runDirectory, fixtureFiles_secondList, runFiles, hl, runCases]
  rfl

theorem not_allWhole_secondList : ¬ AllWhole secondListFixtures "fixtures" := by
  intro h
  have hentry : secondListFixtures.HasEntry "fixtures" "a.json" (.text secondList) :=
    ⟨["fixtures"], by decide +kernel, by decide +kernel⟩
  have hrun : (Reader.document Reader.depthLimit).run secondList.toList =
      .ok (.array [], secondList.toList.drop 2) := by
    with_unfolding_all rfl
  obtain ⟨source, items, cases, hsource, hj, -⟩ := h _ _ (by decide +kernel) hentry
  cases read_secondList.symm.trans hsource
  obtain ⟨rest, hrest, hend⟩ := Reader.runToEnd_eq_ok_iff.1 hj
  rw [hrun] at hrest
  cases hrest
  exact absurd (Reader.atEnd_eq_ok_iff.1 hend) (by decide +kernel)

theorem second_list_not_seen :
    runDirectory Pattern.language secondListFixtures "fixtures" =
        ⟨0, "", "—— 0 passed, 0 failed ——\n", secondListFixtures⟩ ∧
      ¬ AllWhole secondListFixtures "fixtures" :=
  ⟨run_secondList _, not_allWhole_secondList⟩

theorem exists_rest_secondList :
    (runDirectory Pattern.language secondListFixtures "fixtures").exit ≠ 2 ∧
      ∃ f : Fixture secondListFixtures "fixtures", skipBlanks f.rest ≠ [] := by
  have hexit : (runDirectory Pattern.language secondListFixtures "fixtures").exit ≠ 2 := by
    rw [run_secondList]
    decide
  obtain ⟨fixtures, -, -, -, -, hwhole⟩ := summary_accounts_for_first_arrays _ _ _ hexit
  refine ⟨hexit, ?_⟩
  by_contra hn
  refine not_allWhole_secondList (hwhole.2 fun f _ => ?_)
  exact by_contra fun hf => hn ⟨f, hf⟩

end Fixtures
end Conformance
