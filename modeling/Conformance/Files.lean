import Conformance.Files.Path

/-!
# Files

A file system as it stands while a program runs: what is found at each location,
the working directory, and what the system refuses at a location. A location
lists names from the root down; the root is a directory. Paths are followed name
by name, and every name but the last must be that of a directory.
-/
namespace Conformance

abbrev Location := List String

inductive Node
  | file (content : ByteArray)
  | directory

instance : DecidableEq Node
  | .file a, .file b =>
    match ByteArray.instDecidableEq a b with
    | isTrue h => isTrue (h ▸ rfl)
    | isFalse h => isFalse fun he => h (Node.file.inj he)
  | .directory, .directory => isTrue rfl
  | .file _, .directory => isFalse Node.noConfusion
  | .directory, .file _ => isFalse Node.noConfusion

def Node.text (content : String) : Node := .file content.toUTF8

inductive FileError
  | notFound
  | alreadyExists
  | notDirectory
  | isDirectory
  | notText
  | system (text : String) (code : Nat)
deriving DecidableEq

namespace FileError

def message : FileError → String
  | notFound => "No such file or directory (os error 2)"
  | alreadyExists => "File exists (os error 17)"
  | notDirectory => "Not a directory (os error 20)"
  | isDirectory => "Is a directory (os error 21)"
  | notText => "stream did not contain valid UTF-8"
  | system text code => text ++ " (os error " ++ toString code ++ ")"

def noSpace : FileError := system "No space left on device" 28

end FileError

/-- What the system refuses at a location: to read what is there, to make something there or open it
for writing, and to take more than so many bytes of what is written. -/
structure Limits where
  reading : Option FileError := none
  opening : Option FileError := none
  room : Option (Nat × FileError) := none

structure Files where
  nodes : List (Location × Node)
  working : Location
  limits : Location → Limits := fun _ => {}

namespace Files

def node? (fs : Files) (l : Location) : Option Node :=
  if l = [] then some .directory else fs.nodes.lookup l

def put (fs : Files) (l : Location) (node : Node) : Files :=
  { fs with nodes := go fs.nodes }
where
  go : List (Location × Node) → List (Location × Node)
    | [] => [(l, node)]
    | (l', node') :: nodes => if l' = l then (l, node) :: nodes else (l', node') :: go nodes

/-- Follows names from a location. What the last name leads to need not exist. -/
def walk (fs : Files) (here : Location) : List String → Except FileError Location
  | [] => .ok here
  | name :: names =>
    match fs.node? here with
    | none => .error .notFound
    | some (.file _) => .error .notDirectory
    | some .directory =>
      if name = "" || name = "." then walk fs here names
      else if name = ".." then walk fs here.dropLast names
      else walk fs (here ++ [name]) names

def start (fs : Files) (path : String) : Location :=
  if Path.isAbsolute path then [] else fs.working

def locate (fs : Files) (path : String) : Except FileError Location :=
  if path = "" then .error .notFound else fs.walk (fs.start path) (Path.names path)

def found (fs : Files) (l : Except FileError Location) : Except FileError Node :=
  match l with
  | .error e => .error e
  | .ok l =>
    match fs.node? l with
    | some node => .ok node
    | none => .error .notFound

def nodeAt (fs : Files) (path : String) : Except FileError Node := fs.found (fs.locate path)

def isDirectory (fs : Files) (path : String) : Bool :=
  match fs.nodeAt path with
  | .ok .directory => true
  | _ => false

def isPresent (fs : Files) (path : String) : Bool := (fs.nodeAt path).isOk

def readAt (fs : Files) (l : Location) : Except FileError String :=
  match fs.node? l with
  | none => .error .notFound
  | some node =>
    match (fs.limits l).reading with
    | some e => .error e
    | none =>
      match node with
      | .directory => .error .isDirectory
      | .file content =>
        match String.fromUTF8? content with
        | some text => .ok text
        | none => .error .notText

def read (fs : Files) (path : String) : Except FileError String :=
  match fs.locate path with
  | .error e => .error e
  | .ok l => fs.readAt l

/-- Locations in the order of a walk through the directories: a directory comes before what is in
it, and names ascend. -/
def comesBefore (a b : Location) : Bool := !decide (b < a)

def below (fs : Files) (l : Location) : List (Location × Node) :=
  let entries := fs.nodes.filterMap fun e =>
    if l.isPrefixOf e.1 && l.length < e.1.length then some (e.1.drop l.length, e.2) else none
  entries.mergeSort fun a b => comesBefore a.1 b.1

def list (fs : Files) (path : String) : Except FileError (List (String × Node)) :=
  match fs.locate path with
  | .error e => .error e
  | .ok l =>
    match fs.node? l with
    | none => .error .notFound
    | some (.file _) => .error .notDirectory
    | some .directory =>
      match (fs.limits l).reading with
      | some e => .error e
      | none =>
        .ok ((fs.below l).filterMap fun e =>
          match e.1 with
          | [name] => some (name, e.2)
          | _ => none)

/-- The location where a path opens a file for writing. Its directory must be there, and a path that
ends with a slash names no file. -/
def opens (fs : Files) (path : String) : Except FileError Location :=
  let names := Path.names path
  let trimmed := (names.reverse.dropWhile (· = "")).reverse
  match trimmed.getLast? with
  | none => .error .isDirectory
  | some name =>
    match fs.walk (fs.start path) trimmed.dropLast with
    | .error e => .error e
    | .ok here =>
      match fs.node? here with
      | none => .error .notFound
      | some (.file _) => .error .notDirectory
      | some .directory =>
        if name = "." || name = ".." || names.getLast? = some "" then .error .isDirectory
        else
          match fs.node? (here ++ [name]), (fs.limits (here ++ [name])).opening with
          | some .directory, _ => .error .isDirectory
          | _, some e => .error e
          | _, none => .ok (here ++ [name])

def taken (fs : Files) (l : Location) (bytes : ByteArray) : ByteArray :=
  match (fs.limits l).room with
  | none => bytes
  | some (n, _) => bytes.extract 0 n

def breakOff (fs : Files) (l : Location) (bytes : ByteArray) : Option FileError :=
  match (fs.limits l).room with
  | none => none
  | some (n, e) => if n < bytes.size then some e else none

/-- Writes a file and tells what has failed. Opening the file cuts it to nothing, so when writing
breaks off its old content is gone. -/
def write (fs : Files) (path : String) (bytes : ByteArray) : Files × Option FileError :=
  match fs.opens path with
  | .error e => (fs, some e)
  | .ok l => (fs.put l (.file (fs.taken l bytes)), fs.breakOff l bytes)

def makeDirectory (fs : Files) (here : Location) (parent : List String) (name : String) :
    Except FileError Files :=
  match fs.walk here parent with
  | .error e => .error e
  | .ok here =>
    match fs.node? here with
    | none => .error .notFound
    | some (.file _) => .error .notDirectory
    | some .directory =>
      if name = "." || name = ".." then .error .alreadyExists
      else
        match fs.node? (here ++ [name]), (fs.limits (here ++ [name])).opening with
        | some _, _ => .error .alreadyExists
        | none, some e => .error e
        | none, none => .ok (fs.put (here ++ [name]) .directory)

def unlessPresent (fs : Files) (here : Location) (names : List String) (e : FileError) :
    Option FileError :=
  match fs.found (fs.walk here names) with
  | .ok .directory => none
  | _ => some e

/-- Makes a directory and those above it that are missing, and tells what has failed. What was
made before a failure stays. The names are given from the last to the first. -/
def makeDirectories (fs : Files) (here : Location) : List String → Files × Option FileError
  | [] => (fs, none)
  | name :: above =>
    let names := (name :: above).reverse
    match fs.makeDirectory here above.reverse name with
    | .ok fs => (fs, none)
    | .error .notFound =>
      match makeDirectories fs here above with
      | (fs, some e) => (fs, some e)
      | (fs, none) =>
        match fs.makeDirectory here above.reverse name with
        | .ok fs => (fs, none)
        | .error e => (fs, fs.unlessPresent here names e)
    | .error e => (fs, fs.unlessPresent here names e)

def makeParent (fs : Files) (path : String) : Files × Option FileError :=
  fs.makeDirectories (fs.start path) (Path.parts path).reverse.tail

end Files
end Conformance
