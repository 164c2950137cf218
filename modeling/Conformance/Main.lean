import Conformance.Fixtures.Run

/-!
# The program

The outer layer: it collects the files that a command mentions, runs the command
on them, and carries out what the outcome says. Under the name `fixtures` the
program runs fixtures instead.
-/
namespace Conformance.Program

def wantsColour (force plain allowed : Option String) (terminal : Bool) : Bool :=
  if force.any (· ≠ "0") then true
  else if plain.isSome then false
  else allowed.all (· ≠ "0") && terminal

def fixedNames (path : String) : List String :=
  (Path.parts path).takeWhile fun name => !Glob.isPattern name

def resolveNames (here : Location) : List String → Location
  | [] => here
  | name :: names =>
    if name = "." then resolveNames here names
    else if name = ".." then resolveNames here.dropLast names
    else resolveNames (here ++ [name]) names

def pathText (l : Location) : String := "/" ++ "/".intercalate l

def systemError : IO.Error → FileError
  | .permissionDenied _ code text | .resourceExhausted _ code text | .inappropriateType _ code text
  | .invalidArgument _ code text | .noSuchThing _ code text | .resourceBusy code text
  | .hardwareFault code text | .unsupportedOperation code text | .otherError code text =>
    .system text code.toNat
  | e => .system e.toString 0

def putUnreadable (files : Files) (l : Location) (node : Node) (e : FileError) : Files :=
  let limits := files.limits
  { files.put l node with
    limits := fun l' => if l' = l then { limits l with reading := some e } else limits l' }

/-- Adds what is found at a location. The content of a file to be written is not asked for. -/
def collectAt (contents : Bool) (files : Files) (l : Location) : IO Files := do
  let path := (← IO.currentDir) / pathText l
  if ← path.isDir then return files.put l .directory
  else if ← path.pathExists then
    if contents then
      match ← (IO.FS.readBinFile path).toBaseIO with
      | .ok content => return files.put l (.file content)
      | .error e => return putUnreadable files l (.file .empty) (systemError e)
    else return files.put l (.file .empty)
  else return files

partial def collectBelow (files : Files) (l : Location) : IO Files := do
  let path := (← IO.currentDir) / pathText l
  if ← path.isDir then
    match ← path.readDir.toBaseIO with
    | .ok entries =>
      entries.foldlM (fun files e => collectBelow files (l ++ [e.fileName]))
        (files.put l .directory)
    | .error e => return putUnreadable files l .directory (systemError e)
  else collectAt true files l

def collectAbove (files : Files) (l : Location) : IO Files := do
  let above := (List.range l.length).tail.map fun n => l.take n
  above.foldlM (collectAt false) files

/-- How much of what stands at a path a command asks for. -/
inductive Demand
  | place
  | content
  | below

def collectPath (files : Files) (mention : Demand × String) : IO Files := do
  let l := resolveNames (files.start mention.2) (fixedNames mention.2)
  let files ← collectAbove files l
  match mention.1 with
  | .place => collectAt false files l
  | .content => collectAt true files l
  | .below => collectBelow files l

def collect (mentions : List (Demand × String)) : IO Files := do
  let working := Path.parts (← IO.currentDir).toString
  let files ← collectAbove { nodes := [], working } working
  mentions.foldlM collectPath (files.put working .directory)

def inputDemand (input : String) : Demand := if Glob.isPattern input then .below else .content

def mentions : Command → List (Demand × String)
  | .check c => (.content, c.type.path) :: c.inputs.map fun input => (inputDemand input, input)
  | .render r => r.out.toList.map (.place, ·) ++ [(.content, r.type.path)]

def save (before after : Files) (out : String) : IO (Option Failure) := do
  for (l, node) in after.nodes do
    if before.node? l ≠ some node then
      let path := (← IO.currentDir) / pathText l
      match node with
      | .directory =>
        if let .error e ← (IO.FS.createDirAll path).toBaseIO then
          return some (.directoryNotMade (systemError e))
      | .file content =>
        if let .error e ← (IO.FS.writeBinFile path content).toBaseIO then
          return some (.outUnwritten out (systemError e))
  return none

def finish (before : Files) (out : String) (outcome : Outcome) : IO UInt32 := do
  let outcome :=
    match ← save before outcome.files out with
    | none => outcome
    | some failure => failure.outcome outcome.files
  IO.print outcome.stdout
  IO.eprint outcome.stderr
  return outcome.exit.toUInt32

def outPath : Command → String
  | .check _ => ""
  | .render r => r.out.getD ""

def runFixtures (args : List String) : IO UInt32 := do
  let files ← collect [(.below, args.head?.getD "fixtures")]
  finish files "" (Fixtures.run files args)

def runCommand (args : List String) : IO UInt32 := do
  match Command.ofArguments? args with
  | none =>
    IO.eprintln "error: the arguments do not fit"
    IO.eprintln "Usage: check --type FILE --input PATH... [OPTIONS]"
    IO.eprintln "       render --type FILE [OPTIONS]"
    return 2
  | some command =>
    let files ← collect (mentions command)
    let colour := wantsColour (← IO.getEnv "CLICOLOR_FORCE") (← IO.getEnv "NO_COLOR")
      (← IO.getEnv "CLICOLOR") (← (← IO.getStdout).isTty)
    finish files (outPath command) (command.run colour files)

end Conformance.Program

def main (args : List String) : IO UInt32 := do
  if (← IO.appPath).fileName == some "fixtures" then Conformance.Program.runFixtures args
  else Conformance.Program.runCommand args
