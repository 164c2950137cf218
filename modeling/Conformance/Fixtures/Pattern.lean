/-!
# Error patterns

A pattern says what the message of an error has to contain. What patterns there
are and what they mean is up to a `PatternLanguage`. In the language given here
a backslash takes the meaning from the character behind it; without one, `^`
stands for the start of the message, `$` for its end, and a dot for any character
but a line break.
-/
namespace Conformance

/-- The test of messages that a pattern stands for, or why a text is no pattern. -/
abbrev PatternLanguage := String → Except String (String → Bool)

namespace Pattern

inductive Atom
  | char (c : Char)
  | anyChar
  | start
  | finish
deriving DecidableEq

def escape (c : Char) : Char :=
  if c = 'n' then '\n' else if c = 't' then '\t' else if c = 'r' then '\r' else c

def atoms : List Char → List Atom
  | [] => []
  | '\\' :: c :: cs => .char (escape c) :: atoms cs
  | '^' :: cs => .start :: atoms cs
  | '$' :: cs => .finish :: atoms cs
  | '.' :: cs => .anyChar :: atoms cs
  | c :: cs => .char c :: atoms cs

def matchesHere (atStart : Bool) : List Atom → List Char → Bool
  | [], _ => true
  | .start :: as, cs => atStart && matchesHere atStart as cs
  | .finish :: as, cs => cs.isEmpty && matchesHere atStart as cs
  | .char _ :: _, [] => false
  | .char a :: as, c :: cs => a == c && matchesHere false as cs
  | .anyChar :: _, [] => false
  | .anyChar :: as, c :: cs => c != '\n' && matchesHere false as cs

def search (atStart : Bool) (as : List Atom) : List Char → Bool
  | [] => matchesHere atStart as []
  | c :: cs => matchesHere atStart as (c :: cs) || search false as cs

def matchesMessage (pattern message : String) : Bool :=
  search true (atoms pattern.toList) message.toList

def language : PatternLanguage := fun pattern => .ok (matchesMessage pattern)

end Pattern
end Conformance
