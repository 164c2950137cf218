/-!
# Command line arguments

A grammar lists the options of a command. `scan` takes a list of arguments apart
into the options that occur, with their values. Long options may carry a value
behind `=`; short ones may be joined, and what follows a short option that takes
a value is its value. An option with many values takes all arguments up to the
next option, unless its value is attached. Nothing but options is accepted, and
no argument after `--`.
-/
namespace Conformance

inductive Arity
  | flag
  | one
  | many
deriving DecidableEq

structure OptionRule where
  long : String
  short : Option Char
  arity : Arity

namespace Arguments

abbrev Grammar := List OptionRule

abbrev Occurrence := String × List String

/-- What has been read of the arguments: the options, the last one first, and the option that
waits for values, with those it has got. -/
structure State where
  occurrences : List Occurrence
  waiting : Option (OptionRule × List String)

def settle (s : State) : Option State :=
  match s.waiting with
  | none => some s
  | some (_, []) => none
  | some (rule, values) => some ⟨(rule.long, values) :: s.occurrences, none⟩

def occur (s : State) (rule : OptionRule) (values : List String) : State :=
  ⟨(rule.long, values) :: s.occurrences, none⟩

def await (s : State) (rule : OptionRule) : State := ⟨s.occurrences, some (rule, [])⟩

def longOption (grammar : Grammar) (s : State) (cs : List Char) : Option State := do
  let s ← settle s
  let name := String.ofList (cs.takeWhile (· ≠ '='))
  let rule ← grammar.find? (·.long = name)
  match cs.dropWhile (· ≠ '='), rule.arity with
  | [], .flag => some (occur s rule [])
  | [], _ => some (await s rule)
  | _ :: _, .flag => none
  | _ :: value, _ => some (occur s rule [String.ofList value])

def shortOptions (grammar : Grammar) (s : State) : List Char → Option State
  | [] => some s
  | c :: cs =>
    match grammar.find? (·.short = some c) with
    | none => none
    | some rule =>
      match rule.arity, cs with
      | .flag, cs => shortOptions grammar (occur s rule []) cs
      | _, [] => some (await s rule)
      | _, '=' :: value => some (occur s rule [String.ofList value])
      | _, value => some (occur s rule [String.ofList value])

def plainValue (s : State) (value : String) : Option State :=
  match s.waiting with
  | none => none
  | some (rule, values) =>
    if rule.arity = .many then some ⟨s.occurrences, some (rule, values ++ [value])⟩
    else some (occur s rule [value])

def scanFrom (grammar : Grammar) (s : State) : List String → Option (List Occurrence)
  | [] => (settle s).map (·.occurrences.reverse)
  | arg :: args =>
    match arg.toList with
    | ['-', '-'] => if args.isEmpty then (settle s).map (·.occurrences.reverse) else none
    | '-' :: '-' :: cs => (longOption grammar s cs).bind (scanFrom grammar · args)
    | '-' :: c :: cs =>
      ((settle s).bind (shortOptions grammar · (c :: cs))).bind (scanFrom grammar · args)
    | _ => (plainValue s arg).bind (scanFrom grammar · args)

def scan (grammar : Grammar) (args : List String) : Option (List Occurrence) :=
  scanFrom grammar ⟨[], none⟩ args

def values (os : List Occurrence) (long : String) : List String :=
  (os.filter (·.1 = long)).flatMap (·.2)

def count (os : List Occurrence) (long : String) : Nat := (os.filter (·.1 = long)).length

def optionalValue (os : List Occurrence) (long : String) : Option (Option String) :=
  match values os long with
  | [] => some none
  | [value] => some (some value)
  | _ => none

def flagValue (os : List Occurrence) (long : String) : Option Bool :=
  match count os long with
  | 0 => some false
  | 1 => some true
  | _ => none

def filledPath (path : String) : Option String := if path = "" then none else some path

def u32? (s : String) : Option UInt32 :=
  let cs := s.toList
  let negative := cs.head? == some '-'
  let digits := if negative || cs.head? == some '+' then cs.tail else cs
  if digits.isEmpty || !digits.all Char.isDigit then none
  else
    let n := Nat.ofDigitChars 10 digits 0
    if (negative && n ≠ 0) || 0x100000000 ≤ n then none else some (UInt32.ofNat n)

end Arguments
end Conformance
