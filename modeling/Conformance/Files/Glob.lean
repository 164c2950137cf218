import Conformance.Files

/-!
# Glob patterns

In a pattern `*` stands for any text without a slash, `?` for any character,
and brackets for one character of a set or, after `!`, not of it. A dot at the
front of a name is nothing special to them. A whole name `**` stands for any
number of directories. A pattern is expanded to the paths that match it, name by
name, in the order of a walk through the directories.
-/
namespace Conformance.Glob

inductive Specifier
  | single (c : Char)
  | range (low high : Char)
deriving DecidableEq

inductive Token
  | char (c : Char)
  | anyChar
  | anySequence
  | anyRecursive
  | within (set : List Specifier)
  | except (set : List Specifier)
deriving DecidableEq

inductive Problem
  | wildcards
  | recursiveWildcards
  | invalidRange

/-- A pattern is malformed near a position, which counts characters. -/
structure Malformed where
  position : Nat
  problem : Problem

def Problem.message : Problem → String
  | wildcards => "wildcards are either regular `*` or recursive `**`"
  | recursiveWildcards => "recursive wildcards must form a single path component"
  | invalidRange => "invalid range pattern"

def Malformed.message (m : Malformed) : String :=
  "Pattern syntax error near position " ++ toString m.position ++ ": " ++ m.problem.message

inductive Obstacle
  | malformed (m : Malformed)
  | unlisted (path : String) (e : FileError)

def Obstacle.message : Obstacle → String
  | malformed m => m.message
  | unlisted path e =>
    "attempting to read `" ++ path ++ "` resulted in an error: " ++ e.message

def specifiers : List Char → List Specifier
  | a :: '-' :: b :: cs => .range a b :: specifiers cs
  | a :: cs => .single a :: specifiers cs
  | [] => []

/-- Splits off what comes before the closing bracket. The first character is never taken for it. -/
def closing : List Char → Option (List Char × List Char)
  | [] => none
  | first :: cs =>
    match cs.dropWhile (· ≠ ']') with
    | [] => none
    | _ :: rest => some (first :: cs.takeWhile (· ≠ ']'), rest)

def bracket : List Char → Option (Token × List Char)
  | '!' :: cs => (closing cs).map fun (set, rest) => (.except (specifiers set), rest)
  | cs => (closing cs).map fun (set, rest) => (.within (specifiers set), rest)

theorem length_closing_lt {cs set rest : List Char} (h : closing cs = some (set, rest)) :
    rest.length < cs.length := by
  unfold closing at h
  split at h
  · cases h
  · rename_i first cs
    have hd := (List.dropWhile_suffix (fun c => decide (c ≠ ']')) (l := cs)).length_le
    split at h
    · cases h
    · rename_i hc
      rw [hc] at hd
      cases h
      simp only [List.length_cons] at *
      omega

theorem length_bracket_lt {cs rest : List Char} {t : Token} (h : bracket cs = some (t, rest)) :
    rest.length < cs.length := by
  unfold bracket at h
  split at h
  · rw [Option.map_eq_some_iff] at h
    obtain ⟨⟨set, rest'⟩, hc, he⟩ := h
    cases he
    exact Nat.lt_succ_of_lt (length_closing_lt hc)
  · rw [Option.map_eq_some_iff] at h
    obtain ⟨⟨set, rest'⟩, hc, he⟩ := h
    cases he
    exact length_closing_lt hc

def tokensFrom (i : Nat) (atStart : Bool) (cs : List Char) : Except Malformed (List Token) :=
  match cs with
  | [] => .ok []
  | '*' :: '*' :: '*' :: _ => .error ⟨i + 2, .wildcards⟩
  | '*' :: '*' :: cs =>
    if !atStart then .error ⟨i - 1, .recursiveWildcards⟩
    else
      match cs with
      | [] => .ok [.anyRecursive]
      | '/' :: cs => (tokensFrom (i + 3) true cs).map (.anyRecursive :: ·)
      | _ => .error ⟨i + 2, .recursiveWildcards⟩
  | '*' :: cs => (tokensFrom (i + 1) false cs).map (.anySequence :: ·)
  | '?' :: cs => (tokensFrom (i + 1) false cs).map (.anyChar :: ·)
  | '[' :: cs =>
    match _h : bracket cs with
    | none => .error ⟨i, .invalidRange⟩
    | some (token, rest) =>
      (tokensFrom (i + 1 + (cs.length - rest.length)) false rest).map (token :: ·)
  | c :: cs => (tokensFrom (i + 1) (c == '/') cs).map (.char c :: ·)
termination_by cs.length
decreasing_by
  all_goals
    try have := length_bracket_lt _h
    simp only [List.length_cons]
    omega

def tokens (pattern : List Char) : Except Malformed (List Token) := tokensFrom 0 true pattern

def Specifier.accepts (c : Char) : Specifier → Bool
  | single a => c == a
  | range low high => low ≤ c && c ≤ high

def Token.accepts (c : Char) : Token → Bool
  | char a => c == a
  | anyChar => true
  | within set => set.any (·.accepts c)
  | except set => !set.any (·.accepts c)
  | anySequence | anyRecursive => false

def isSequence : Token → Bool
  | .anySequence | .anyRecursive => true
  | _ => false

def matchesName : List Token → List Char → Bool
  | [], cs => cs.isEmpty
  | t :: ts, [] => isSequence t && matchesName ts []
  | t :: ts, c :: cs =>
    if isSequence t then matchesName ts (c :: cs) || matchesName (t :: ts) cs
    else t.accepts c && matchesName ts cs
termination_by ts cs => ts.length + cs.length

def plainText? : List Token → Option (List Char)
  | [] => some []
  | .char c :: ts => (plainText? ts).map (c :: ·)
  | _ => none

abbrev Name := List Token

def isRecursive (name : Name) : Bool := name == [.anyRecursive]

abbrev Found := List (String × Bool)

def isDirectoryNode : Node → Bool
  | .directory => true
  | .file _ => false

def descend (path : String) (names : List String) : String :=
  match names with
  | [] => path
  | name :: names => names.foldl Path.join (if Path.isDot path then name else Path.join path name)

def descendants (fs : Files) (path : String) : List (List String × Node) :=
  match fs.locate path with
  | .ok l => fs.below l
  | .error _ => []

def children (fs : Files) (path : String) : List (List String × Node) :=
  (descendants fs path).filter fun e => e.1.length = 1

/-- A directory whose entries may not be read ends the walk. -/
def checkListed (fs : Files) (path : String) : Except Obstacle Unit :=
  match fs.locate path with
  | .error _ => .ok ()
  | .ok l =>
    match (fs.limits l).reading with
    | some e => .error (.unlisted path e)
    | none => .ok ()

def checkAllListed (fs : Files) (path : String) (below : List (List String × Node)) :
    Except Obstacle Unit := do
  checkListed fs path
  for e in below do
    if isDirectoryNode e.2 then checkListed fs (descend path e.1)

def expandFrom (fs : Files) (path : String) (isDirectory : Bool) :
    List Name → Except Obstacle Found
  | [] => .ok [(path, isDirectory)]
  | name :: names =>
    match plainText? name with
    | some text =>
      let text := String.ofList text
      let special := text = "." || text = ".."
      let next := if Path.isDot path then text else Path.join path text
      if (special && isDirectory) || (!special && fs.isPresent next) then
        expandFrom fs next (fs.isDirectory next) names
      else .ok []
    | none =>
      if !isDirectory then .ok []
      else if isRecursive name then
        match names with
        | [] => do
          let below := descendants fs path
          checkAllListed fs path below
          return (below.filter fun e => isDirectoryNode e.2).map fun e => (descend path e.1, true)
        | next :: names =>
          if isRecursive next then expandFrom fs path isDirectory (next :: names)
          else do
            let below := descendants fs path
            checkAllListed fs path below
            let found ← below.mapM fun e =>
              if matchesName next (e.1.getLast?.getD "").toList then
                expandFrom fs (descend path e.1) (isDirectoryNode e.2) names
              else .ok []
            return found.flatten
      else do
        checkListed fs path
        let special := fun (dots : String) =>
          if name.head? = some (.char '.') && matchesName name dots.toList then
            let next := Path.join path dots
            expandFrom fs next (fs.isDirectory next) names
          else .ok []
        let above ← special ".."
        let here ← special "."
        let found ← (children fs path).mapM fun e =>
          if matchesName name (e.1.getLast?.getD "").toList then
            expandFrom fs (descend path e.1) (isDirectoryNode e.2) names
          else .ok []
        return above ++ here ++ found.flatten

def patternNames (pattern : List Char) : List (List Char) :=
  match (Path.splitSlash pattern).reverse with
  | [] :: names => names.reverse
  | names => names.reverse

def compile (pattern : String) : Except Malformed (List Name) := do
  let cs := pattern.toList
  let _ ← tokens cs
  (patternNames (if Path.isAbsolute pattern then cs.tail else cs)).mapM tokens

/-- The paths that match a pattern. A slash at its end asks for directories only. -/
def expand (fs : Files) (pattern : String) : Except Obstacle (List String) := do
  let names ← (compile pattern).mapError .malformed
  let found ← expandFrom fs (if Path.isAbsolute pattern then "/" else ".") true names
  return (found.filter fun e => e.2 || !Path.endsWithSlash pattern).map (·.1)

def isPattern (path : String) : Bool := path.toList.any fun c => c ∈ ['*', '?', '[', '{']

end Conformance.Glob
