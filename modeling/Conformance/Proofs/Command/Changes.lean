import Conformance.Proofs.Command.CheckRun
import Conformance.Proofs.Files.Contents

/-!
# What a run changes

Only `render` writes a file, and only the one named by `--out`, after the type
description has been loaded. What it writes is what the same run prints when no
file is named. A run that fails has at most made directories, with one exception:
once the file is open its old content is gone, and if it cannot take the whole
text the run fails and leaves the part that was taken. Behind the version gate
nothing is reached at all: the outcome is the same on all files.
-/
namespace Conformance.Command

variable {colour : Bool} {files files' : Files} {c : CheckSettings} {r : RenderSettings}
  {t : Shape} {path : String} {l : Location} {o : Outcome}

def Loads (files : Files) (type : TypeSettings) (t : Shape) : Prop :=
  type.version = schemaVersion ∧
    ∃ source, files.read type.path = .ok source ∧ Shape.decodeText source = .ok t

/-- What the same run prints when no file is named for the output. -/
def printed (colour : Bool) (files : Files) (r : RenderSettings) : String :=
  (run colour files (.render { r with out := none })).stdout

theorem printed_of_loads (h : Loads files r.type t) :
    printed colour files r = t.render ++ "\n" := by
  simp only [printed, run, runRender, loadType_eq_ok_iff.2 h]

theorem files_runCheck : (runCheck colour files c).files = files := by
  unfold runCheck
  split
  · rfl
  · split
    · rfl
    · rfl

/-- How a run of `render` can end. Directories may have been made before a file is opened. -/
inductive Rendered (files : Files) (r : RenderSettings) : Outcome → Prop
  | unloaded {f : Failure} (h : loadType files r.type = .error f) :
      Rendered files r (f.outcome files)
  | printed {t : Shape} (loads : Loads files r.type t) (out : r.out = none) :
      Rendered files r ⟨0, t.render ++ "\n", "", files⟩
  | unopened {t : Shape} {path : String} {files' : Files} {f : Failure}
      (loads : Loads files r.type t) (out : r.out = some path) (grown : files.Grown files') :
      Rendered files r (f.outcome files')
  | written {t : Shape} {path : String} {files' : Files} {l : Location}
      (loads : Loads files r.type t) (out : r.out = some path) (grown : files.Grown files')
      (writable : files'.Writable path l) :
      Rendered files r ⟨0, "", "", files'.put l (.text (t.render ++ "\n"))⟩
  | cutOff {t : Shape} {path : String} {files' : Files} {l : Location} {n : Nat} {e : FileError}
      (loads : Loads files r.type t) (out : r.out = some path) (grown : files.Grown files')
      (writable : files'.Writable path l) (room : (files.limits l).room = some (n, e))
      (short : n < (t.render ++ "\n").toUTF8.size) :
      Rendered files r ((Failure.outUnwritten path e).outcome
        (files'.put l (.file ((t.render ++ "\n").toUTF8.extract 0 n))))

theorem rendered_runRender (files : Files) (r : RenderSettings) :
    Rendered files r (runRender files r) := by
  unfold runRender
  split
  · rename_i h
    exact .unloaded h
  · rename_i t ht
    have loads : Loads files r.type t := loadType_eq_ok_iff.1 ht
    split
    · rename_i out
      exact .printed loads out
    · rename_i path out
      have hg := Files.grown_makeParent files path
      -- Directories come first, and stay when the file cannot be opened after that.
      rw [writeOut]
      cases hm : files.makeParent path with
      | mk files' failed =>
        rw [hm] at hg
        cases failed with
        | some e => exact .unopened loads out hg
        | none =>
          dsimp only
          rcases files'.write_cases path (t.render ++ "\n").toUTF8 with ⟨e, hw⟩ | ⟨l, hl, hw⟩
          · rw [hw]
            exact .unopened loads out hg
          · rw [hw]
            cases hb : files'.breakOff l (t.render ++ "\n").toUTF8 with
            | none =>
              rw [Files.taken_of_breakOff_none hb]
              exact .written loads out hg hl
            | some e =>
              obtain ⟨n, hn, hshort, htaken⟩ := Files.taken_of_breakOff_some hb
              rw [htaken]
              exact .cutOff loads out hg hl (hg.limits ▸ hn) hshort

/-- The run has failed in the middle of writing the text, and left as much of it as was taken. -/
def CutOff (files : Files) (path text : String) (l : Location) (o : Outcome) : Prop :=
  o.exit = 2 ∧ ∃ n e, (files.limits l).room = some (n, e) ∧ n < text.toUTF8.size ∧
    o.stderr = "error: " ++ (Failure.outUnwritten path e).message ++ "\n" ∧
    o.files.content? l = some (text.toUTF8.extract 0 n)

theorem Rendered.content?_cases (h : Rendered files r o) :
    (∀ l, o.files.content? l = files.content? l) ∨
      ∃ t path l, Loads files r.type t ∧ r.out = some path ∧ o.files.locate path = .ok l ∧
        (∀ l' ≠ l, o.files.content? l' = files.content? l') ∧
        (o.exit = 0 ∧ o.files.content? l = some (t.render ++ "\n").toUTF8 ∨
          CutOff files path (t.render ++ "\n") l o) := by
  cases h with
  | unloaded => exact .inl fun _ => rfl
  | printed => exact .inl fun _ => rfl
  | unopened _ _ grown => exact .inl grown.content?
  | written loads out grown writable =>
    refine .inr ⟨_, _, _, loads, out, writable.locate_put, fun l' hl' => ?_, .inl ⟨rfl, ?_⟩⟩
    · exact (Files.content?_put writable.ne_nil).trans ((if_neg hl').trans (grown.content? l'))
    · exact (Files.content?_put writable.ne_nil).trans (if_pos rfl)
  | cutOff loads out grown writable room short =>
    refine .inr ⟨_, _, _, loads, out, writable.locate_put, fun l' hl' => ?_,
      .inr ⟨rfl, _, _, room, short, rfl, ?_⟩⟩
    · exact (Files.content?_put writable.ne_nil).trans ((if_neg hl').trans (grown.content? l'))
    · exact (Files.content?_put writable.ne_nil).trans (if_pos rfl)

theorem Rendered.text_out (h : Rendered files r o) (he : o.exit ≠ 2) (out : r.out = some path)
    (loads : Loads files r.type t) :
    ∃ l, o.files.locate path = .ok l ∧
      o.files.content? l = some (t.render ++ "\n").toUTF8 := by
  cases h with
  | unloaded => exact absurd rfl he
  | printed _ hn => cases hn.symm.trans out
  | unopened => exact absurd rfl he
  | written loads' out' _ writable =>
    cases out'.symm.trans out
    cases (loadType_eq_ok_iff.2 loads').symm.trans (loadType_eq_ok_iff.2 loads)
    exact ⟨_, writable.locate_put, (Files.content?_put writable.ne_nil).trans (if_pos rfl)⟩
  | cutOff => exact absurd rfl he

theorem exit_of_writable (loads : Loads files r.type t) (out : r.out = some path)
    (writable : files.Writable path l)
    (room : files.breakOff l (t.render ++ "\n").toUTF8 = none) :
    (runRender files r).exit = 0 := by
  simp only [runRender, loadType_eq_ok_iff.2 loads, out, writeOut, writable.makeParent,
    Files.write_of_writable writable, room]

theorem loadType_of_version {type : TypeSettings} (h : type.version ≠ schemaVersion) :
    ∃ f, ∀ files, loadType files type = .error f := by
  cases hv : checkVersion type.version with
  | error fault => exact ⟨.typeVersion fault, fun files => by simp only [loadType, hv]⟩
  | ok u => exact absurd (checkVersion_eq_ok_iff.1 hv) h

/-- A run of `check` changes nothing. A run of `render` changes the content of a file only if its
type description loads, and only that of the file named for the output. That file then holds what
the same run prints without it, unless writing breaks off: then the run fails, and the file holds
as much of it as was taken. Every other run that fails leaves all contents alone, and where the file
can be written with room for all none fails. With another version of the schema a run fails alike
on all files. -/
theorem runs_change_only_out (colour : Bool) (files : Files) :
    (∀ c, (run colour files (.check c)).files = files) ∧
    (∀ r l, (run colour files (.render r)).files.content? l ≠ files.content? l →
      ∃ t path, Loads files r.type t ∧ r.out = some path ∧
        (run colour files (.render r)).files.locate path = .ok l ∧
        ((run colour files (.render r)).exit = 0 ∧
            (run colour files (.render r)).files.content? l =
              some (printed colour files r).toUTF8 ∨
          CutOff files path (printed colour files r) l (run colour files (.render r)))) ∧
    (∀ r t, Loads files r.type t → printed colour files r = t.render ++ "\n" ∧
      ∀ path, r.out = some path →
        ((run colour files (.render r)).exit ≠ 2 →
          ∃ l, (run colour files (.render r)).files.locate path = .ok l ∧
            (run colour files (.render r)).files.content? l =
              some (printed colour files r).toUTF8) ∧
        ∀ l, files.Writable path l →
          files.breakOff l (printed colour files r).toUTF8 = none →
          (run colour files (.render r)).exit = 0) ∧
    (∀ command, (run colour files command).exit = 2 →
      (∀ l, (run colour files command).files.content? l = files.content? l) ∨
        ∃ r path l, command = .render r ∧ r.out = some path ∧
          (run colour files command).files.locate path = .ok l ∧
          CutOff files path (printed colour files r) l (run colour files command) ∧
          ∀ l' ≠ l, (run colour files command).files.content? l' = files.content? l') ∧
    (∀ c, c.type.version ≠ schemaVersion → c.noOp = false →
      ∃ stderr, ∀ files', run colour files' (.check c) = ⟨2, "", stderr, files'⟩) ∧
    ∀ r, r.type.version ≠ schemaVersion →
      ∃ stderr, ∀ files', run colour files' (.render r) = ⟨2, "", stderr, files'⟩ := by
  have hrendered (r) : Rendered files r (run colour files (.render r)) := rendered_runRender files r
  refine ⟨fun c => files_runCheck, fun r l hl => ?_, fun r t loads => ⟨printed_of_loads loads, ?_⟩,
    fun command he => ?_, fun c hv hn => ?_, fun r hv => ?_⟩
  · rcases (hrendered r).content?_cases with hall | ⟨t, path, l', loads, out, hl', hne, h⟩
    · exact absurd (hall l) hl
    -- Only the opened file can have changed.
    · obtain rfl : l = l' := by
        by_contra hn
        exact hl (hne l hn)
      rw [printed_of_loads loads]
      exact ⟨t, path, loads, out, hl', h⟩
  · intro path out
    rw [printed_of_loads loads]
    exact ⟨fun he => (hrendered r).text_out he out loads,
      fun l writable room => exit_of_writable loads out writable room⟩
  · cases command with
    | check c => exact .inl fun l => by rw [run, files_runCheck]
    | render r =>
      rcases (hrendered r).content?_cases with hall | ⟨t, path, l, loads, out, hl, hne, h⟩
      · exact .inl hall
      · rcases h with ⟨h0, -⟩ | h
        · rw [h0] at he
          cases he
        · have hp : printed colour files r = t.render ++ "\n" := printed_of_loads loads
          rw [← hp] at h
          exact .inr ⟨r, path, l, rfl, out, hl, h, hne⟩
  · obtain ⟨f, hf⟩ := loadType_of_version hv
    refine ⟨"error: " ++ f.message ++ "\n", fun files' => ?_⟩
    rw [run, runCheck, hn, load, hf]
    rfl
  · obtain ⟨f, hf⟩ := loadType_of_version hv
    refine ⟨"error: " ++ f.message ++ "\n", fun files' => ?_⟩
    rw [run, runRender, hf]
    rfl

/-- A type description and an earlier output, on a full disk: a new output has room for as many
bytes as the earlier one has. -/
def fullDisk : Files where
  nodes :=
    [(["work"], .directory),
      (["work", "type.json"], .text (Shape.primitive .boolean).document.compact),
      (["work", "out.txt"], .text "any\n")]
  working := ["work"]
  limits := fun l => if l = ["work", "out.txt"] then { room := some (4, .noSpace) } else {}

def sampleRender : RenderSettings := ⟨⟨"type.json", schemaVersion⟩, some "out.txt"⟩

theorem loads_fullDisk : Loads fullDisk ⟨"type.json", schemaVersion⟩ (.primitive .boolean) := by
  have hj : Json.ofText (Shape.primitive .boolean).document.compact =
      .ok (Shape.primitive .boolean).document :=
    Json.ofText_compact_eq_ok (Shape.wellFormed_document _) rfl
  have hr : fullDisk.read "type.json" = .ok (Shape.primitive .boolean).document.compact :=
    Files.read_of_node? (l := ["work", "type.json"]) (by decide +kernel) rfl rfl
  exact ⟨rfl, _, hr, Shape.decodeText_of_ofText hj⟩

theorem writable_fullDisk : fullDisk.Writable "out.txt" ["work", "out.txt"] :=
  @Files.Writable.intro fullDisk "out.txt" [] "out.txt" ["work"] (by decide +kernel)
    (by decide +kernel) rfl rfl (by decide +kernel) rfl

/-- The run fails, and the earlier output is gone: of the new one four bytes are there. -/
theorem full_disk_loses_output :
    (run false fullDisk (.render sampleRender)).exit = 2 ∧
      (run false fullDisk (.render sampleRender)).stderr =
        "error: failed to write out.txt: No space left on device (os error 28)\n" ∧
      printed false fullDisk sampleRender = "boolean\n" ∧
      fullDisk.content? ["work", "out.txt"] = some "any\n".toUTF8 ∧
      (run false fullDisk (.render sampleRender)).files.content? ["work", "out.txt"] =
        some "bool".toUTF8 ∧
      (run false fullDisk (.render sampleRender)).files.content? ["work", "out.txt"] ≠
        fullDisk.content? ["work", "out.txt"] := by
  have hb : fullDisk.breakOff ["work", "out.txt"] ((Shape.primitive .boolean).render ++ "\n").toUTF8 =
      some .noSpace := by
    decide +kernel
  have ht : fullDisk.taken ["work", "out.txt"] ((Shape.primitive .boolean).render ++ "\n").toUTF8 =
      "bool".toUTF8 := by
    decide +kernel
  have hrun : run false fullDisk (.render sampleRender) =
      (Failure.outUnwritten "out.txt" .noSpace).outcome
        (fullDisk.put ["work", "out.txt"] (.text "bool")) := by
    simp only [run, runRender, sampleRender, loadType_eq_ok_iff.2 loads_fullDisk, writeOut,
      writable_fullDisk.makeParent, Files.write_of_writable writable_fullDisk, hb, ht, Node.text]
  have hafter : (run false fullDisk (.render sampleRender)).files.content? ["work", "out.txt"] =
      some "bool".toUTF8 := by
    rw [hrun]
    exact (Files.content?_put writable_fullDisk.ne_nil).trans (if_pos rfl)
  refine ⟨by rw [hrun]; rfl, by rw [hrun]; decide +kernel, ?_, rfl, hafter, ?_⟩
  · rw [printed_of_loads loads_fullDisk]
    rfl
  · rw [hafter]
    decide +kernel

end Conformance.Command
