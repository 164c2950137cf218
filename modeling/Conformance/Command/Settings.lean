import Conformance.Command.Arguments
import Conformance.Validation

/-!
# Commands

The two commands and their settings. `check` checks documents against a type
description; `render` writes the canonical text of one.
-/
namespace Conformance

structure TypeSettings where
  path : String
  version : UInt32

structure CheckSettings where
  type : TypeSettings
  pointer : Option String
  inputs : List String
  quiet : Bool
  noOp : Bool

structure RenderSettings where
  type : TypeSettings
  out : Option String

inductive Command
  | check (settings : CheckSettings)
  | render (settings : RenderSettings)

namespace Command

def typeRules : List OptionRule :=
  [⟨"type", some 't', .one⟩, ⟨"schema-version", none, .one⟩]

def checkGrammar : Arguments.Grammar :=
  typeRules ++
    [⟨"json-pointer", none, .one⟩, ⟨"input", some 'i', .many⟩, ⟨"quiet", some 'q', .flag⟩,
      ⟨"no-op", none, .flag⟩]

def renderGrammar : Arguments.Grammar := typeRules ++ [⟨"out", some 'o', .one⟩]

open Arguments

def typeSettings (os : List Occurrence) : Option TypeSettings := do
  let path ← (← optionalValue os "type").bind filledPath
  match ← optionalValue os "schema-version" with
  | none => return ⟨path, schemaVersion⟩
  | some version => return ⟨path, ← u32? version⟩

def checkSettings (os : List Occurrence) : Option CheckSettings := do
  let type ← typeSettings os
  let pointer ← optionalValue os "json-pointer"
  let quiet ← flagValue os "quiet"
  let noOp ← flagValue os "no-op"
  match values os "input" with
  | [] => none
  | inputs => return ⟨type, pointer, inputs, quiet, noOp⟩

def renderSettings (os : List Occurrence) : Option RenderSettings := do
  let type ← typeSettings os
  match ← optionalValue os "out" with
  | none => return ⟨type, none⟩
  | some path => return ⟨type, some (← filledPath path)⟩

def ofArguments? : List String → Option Command
  | "check" :: args => ((scan checkGrammar args).bind checkSettings).map check
  | "render" :: args => ((scan renderGrammar args).bind renderSettings).map render
  | _ => none

end Command
end Conformance
