import Conformance.Command.Settings
import Conformance.Text.Quoted

/-!
# Inspecting a command

A command can be shown as a tree of its settings, one on each line, instead of
being run. The names in the tree are part of that output.
-/
namespace Conformance

inductive Inspected
  | text (s : String)
  | members (name : String) (entries : List (String × Inspected))
  | around (name : String) (part : Inspected)
  | items (parts : List Inspected)

namespace Inspected

def indent (depth : Nat) : String := String.ofList (List.replicate (4 * depth) ' ')

mutual
def pretty (depth : Nat) : Inspected → String
  | text s => s
  | members name entries =>
    name ++ " \x7b\n" ++ showEntries (depth + 1) entries ++ indent depth ++ "\x7d"
  | around name part =>
    name ++ "(\n" ++ indent (depth + 1) ++ pretty (depth + 1) part ++ ",\n" ++ indent depth ++ ")"
  | items [] => "[]"
  | items (part :: parts) =>
    "[\n" ++ showItems (depth + 1) (part :: parts) ++ indent depth ++ "]"
def showEntries (depth : Nat) : List (String × Inspected) → String
  | [] => ""
  | (name, part) :: entries =>
    indent depth ++ name ++ ": " ++ pretty depth part ++ ",\n" ++ showEntries depth entries
def showItems (depth : Nat) : List Inspected → String
  | [] => ""
  | part :: parts => indent depth ++ pretty depth part ++ ",\n" ++ showItems depth parts
end

def ofString (s : String) : Inspected := text (Text.quoted s)

def ofBool (b : Bool) : Inspected := text (if b then "true" else "false")

def ofOption : Option String → Inspected
  | none => text "None"
  | some s => around "Some" (ofString s)

def ofTypeSettings (t : TypeSettings) : Inspected :=
  members "TypeSettings"
    [("type_path", ofString t.path), ("schema_version", text (toString t.version.toNat))]

def ofCheck (c : CheckSettings) : Inspected :=
  members "CommandLineInterface"
    [("cmd", around "Check" (members "CheckOut"
      [("type_settings", ofTypeSettings c.type),
        ("input_settings", members "InputSettings"
          [("json_pointer", ofOption c.pointer), ("input", items (c.inputs.map ofString))]),
        ("quiet", ofBool c.quiet),
        ("no_op", ofBool c.noOp)]))]

end Inspected
end Conformance
