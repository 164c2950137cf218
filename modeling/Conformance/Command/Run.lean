import Conformance.Command.Inspection
import Conformance.Files.Glob
import Conformance.Json.Pointer

/-!
# Running commands

`Command.run` takes a command to its outcome on given files. `check` first loads
the type description, behind the version gate, then all documents, and only then
checks them; whatever fails on the way ends the run with exit code 2 and nothing
on the output. One line is written for each document, in the order of the inputs.
-/
namespace Conformance

structure Outcome where
  exit : Nat
  stdout : String
  stderr : String
  files : Files

inductive Failure
  | typeVersion (fault : Fault)
  | typeUnread (path : String) (error : FileError)
  | typeMalformed (path : String) (fault : Fault)
  | patternUnexpanded (obstacle : Glob.Obstacle)
  | patternUnmatched (pattern : String)
  | sourceUnread (path : String) (error : FileError)
  | sourceMalformed (path message : String)
  | nothingSelected (pointer label : String)
  | directoryNotMade (error : FileError)
  | outUnwritten (path : String) (error : FileError)

def Failure.message : Failure → String
  | typeVersion fault => fault.message
  | typeUnread path e => "failed to read type description " ++ path ++ ": " ++ e.message
  | typeMalformed path fault =>
    "failed to decode type description " ++ path ++ ": " ++ fault.message
  | patternUnexpanded obstacle => obstacle.message
  | patternUnmatched pattern => "glob pattern matched no files: " ++ pattern
  | sourceUnread path e => "failed to read source file " ++ path ++ ": " ++ e.message
  | sourceMalformed path message =>
    "failed to parse JSON source file " ++ path ++ ": " ++ message
  | nothingSelected pointer label =>
    "JSON pointer " ++ pointer ++ " selects nothing in " ++ label
  | directoryNotMade e => e.message
  | outUnwritten path e => "failed to write " ++ path ++ ": " ++ e.message

def Failure.outcome (f : Failure) (files : Files) : Outcome :=
  ⟨2, "", "error: " ++ f.message ++ "\n", files⟩

structure Document where
  label : String
  value : Value

namespace Command

/-- Loads the type description; its file is not read when the version is not supported. -/
def loadType (files : Files) (t : TypeSettings) : Except Failure Shape :=
  match checkVersion t.version with
  | .error fault => .error (.typeVersion fault)
  | .ok () =>
    match files.read t.path with
    | .error e => .error (.typeUnread t.path e)
    | .ok source => (Shape.decodeText source).mapError (.typeMalformed t.path)

def resolve (files : Files) (input : String) : Except Failure (List String) :=
  if Glob.isPattern input then
    match Glob.expand files input with
    | .error obstacle => .error (.patternUnexpanded obstacle)
    | .ok [] => .error (.patternUnmatched input)
    | .ok paths => .ok paths
  else .ok [input]

def resolveAll (files : Files) : List String → Except Failure (List String)
  | [] => .ok []
  | input :: inputs =>
    match resolve files input with
    | .error f => .error f
    | .ok paths => (resolveAll files inputs).map (paths ++ ·)

def select (pointer : Option String) (label : String) (j : Json) : Except Failure Json :=
  match pointer with
  | none => .ok j
  | some pointer =>
    match j.pointer? pointer with
    | some j => .ok j
    | none => .error (.nothingSelected pointer label)

def loadDocument (files : Files) (pointer : Option String) (path : String) :
    Except Failure Document :=
  match files.read path with
  | .error e => .error (.sourceUnread path e)
  | .ok source =>
    match Json.ofText source with
    | .error r => .error (.sourceMalformed path (r.message source.toList))
    | .ok j => (select pointer path j).map fun j => ⟨path, .ofJson j⟩

def loadDocuments (files : Files) (pointer : Option String) :
    List String → Except Failure (List Document)
  | [] => .ok []
  | path :: paths =>
    match loadDocument files pointer path with
    | .error f => .error f
    | .ok d => (loadDocuments files pointer paths).map (d :: ·)

def coloured (colour : Bool) (code word : String) : String :=
  if colour then "\x1b[1;" ++ code ++ "m" ++ word ++ "\x1b[0m" else word

abbrev Result := String × Except Fault Value

def verdict (colour quiet : Bool) : Result → String
  | (label, .ok _) => if quiet then "" else coloured colour "32" "ok" ++ " " ++ label ++ "\n"
  | (label, .error fault) =>
    coloured colour "31" "FAIL" ++ " " ++ label ++ ": " ++ fault.message ++ "\n"

def report (colour quiet : Bool) (files : Files) (results : List Result) : Outcome :=
  let failed := (results.filter fun r => !r.2.isOk).length
  { exit := if failed = 0 then 0 else 1
    stdout := String.join (results.map (verdict colour quiet))
    stderr :=
      if failed = 0 then ""
      else toString failed ++ " of " ++ toString results.length ++ " documents failed\n"
    files }

def load (files : Files) (c : CheckSettings) : Except Failure (Shape × List Document) :=
  match loadType files c.type with
  | .error f => .error f
  | .ok t =>
    match resolveAll files c.inputs with
    | .error f => .error f
    | .ok paths => (loadDocuments files c.pointer paths).map (t, ·)

def runCheck (colour : Bool) (files : Files) (c : CheckSettings) : Outcome :=
  if c.noOp then ⟨0, "", (Inspected.ofCheck c).pretty 0 ++ "\n", files⟩
  else
    match load files c with
    | .error f => f.outcome files
    | .ok (t, ds) => report colour c.quiet files (ds.map fun d => (d.label, t.accept d.value))

def writeOut (files : Files) (path content : String) : Files × Option Failure :=
  match files.makeParent path with
  | (files, some e) => (files, some (.directoryNotMade e))
  | (files, none) =>
    match files.write path content.toUTF8 with
    | (files, some e) => (files, some (.outUnwritten path e))
    | (files, none) => (files, none)

def runRender (files : Files) (r : RenderSettings) : Outcome :=
  match loadType files r.type with
  | .error f => f.outcome files
  | .ok t =>
    match r.out with
    | none => ⟨0, t.render ++ "\n", "", files⟩
    | some path =>
      match writeOut files path (t.render ++ "\n") with
      | (files, some f) => f.outcome files
      | (files, none) => ⟨0, "", "", files⟩

def run (colour : Bool) (files : Files) : Command → Outcome
  | check c => runCheck colour files c
  | render r => runRender files r

end Command
end Conformance
