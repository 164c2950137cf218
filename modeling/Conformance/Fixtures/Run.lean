import Conformance.Command.Run
import Conformance.Fixtures.Case

/-!
# Running fixtures

All files with the extension `json` that lie directly in a directory hold lists
of cases. They are run in the order of their names, and the cases of a file in
their order. A line is written for every case that does not meet its
expectation, and a summary at the end. A file that cannot be read, or a case
without a clear expectation, ends the run there with exit code 2.
-/
namespace Conformance.Fixtures

structure Tally where
  passed : Nat
  failed : Nat
  written : String

structure Abort where
  written : String
  message : String

def fixtureFiles (files : Files) (directory : String) : Except FileError (List String) :=
  (files.list directory).map fun entries =>
    (entries.filter fun e => Path.hasExtension "json" e.1).map fun e => Path.join directory e.1

/-- The cases of a file. What follows the list of cases is not looked at. -/
def loadCases (files : Files) (file : String) : Except String (List Case) :=
  match files.read file with
  | .error e => .error e.message
  | .ok source =>
    match ((Codec.list Case.codec).text Reader.depthLimit).run source.toList with
    | .ok (cases, _) => .ok cases
    | .error r =>
      .error (file ++ " at JSON path " ++ Address.text r.address ++ " → "
        ++ r.message source.toList)

def aborted (files : Files) (e : Abort) : Outcome :=
  ⟨2, "", e.written ++ "error: " ++ e.message ++ "\n", files⟩

section
variable (language : PatternLanguage)

def runCase (file : String) (tally : Tally) (c : Case) : Except Abort Tally :=
  match c.expectation language with
  | .error message => .error ⟨tally.written, message⟩
  | .ok expectation =>
    match expectation.complaint? c.result with
    | none => .ok { tally with passed := tally.passed + 1 }
    | some why =>
      .ok { tally with
        failed := tally.failed + 1
        written := tally.written ++ "❌ " ++ file ++ ": " ++ c.name ++ ": " ++ why ++ "\n" }

def runCases (file : String) (tally : Tally) : List Case → Except Abort Tally
  | [] => .ok tally
  | c :: cs =>
    match runCase language file tally c with
    | .error e => .error e
    | .ok tally => runCases file tally cs

def runFiles (files : Files) (tally : Tally) : List String → Except Abort Tally
  | [] => .ok tally
  | file :: rest =>
    match loadCases files file with
    | .error message => .error ⟨tally.written, message⟩
    | .ok cases =>
      match runCases language file tally cases with
      | .error e => .error e
      | .ok tally => runFiles files tally rest

def runDirectory (files : Files) (directory : String) : Outcome :=
  match fixtureFiles files directory with
  | .error e =>
    aborted files ⟨"", "failed to read fixture dir " ++ directory ++ ": " ++ e.message⟩
  | .ok paths =>
    match runFiles language files ⟨0, 0, ""⟩ paths with
    | .error e => aborted files e
    | .ok tally =>
      ⟨if tally.failed = 0 then 0 else 1, "",
        tally.written ++ "—— " ++ toString tally.passed ++ " passed, "
          ++ toString tally.failed ++ " failed ——\n", files⟩

end

def run (files : Files) (args : List String) : Outcome :=
  runDirectory Pattern.language files (args.head?.getD "fixtures")

end Conformance.Fixtures
