import Conformance.Proofs.Json.WrittenNumber

/-!
# Documents and what their texts mean

The compact text of a document is read as that document, but for its numbers and
its depth: a number may be read as another one or be out of range, and containers
may be nested too deep. `Json.reread` says what the numbers make of a document,
and `Json.rereadWithin` what is left of that when only so many containers may be
nested. Both follow the parts of a document, and so does the induction `byParts`.
-/
namespace Conformance

namespace Json

@[elab_as_elim, induction_eliminator]
theorem byParts {motive : Json → Prop} (null : motive .null)
    (boolean : ∀ b, motive (.boolean b)) (number : ∀ n, motive (.number n))
    (string : ∀ s, motive (.string s))
    (array : ∀ items : List Json, (∀ j ∈ items, motive j) → motive (.array items))
    (object : ∀ members : List (String × Json), (∀ m ∈ members, motive m.2) →
      motive (.object members)) : ∀ j, motive j
  | .null => null
  | .boolean b => boolean b
  | .number n => number n
  | .string s => string s
  | .array items => array items fun j _ => byParts null boolean number string array object j
  | .object members =>
    object members fun m _ => byParts null boolean number string array object m.2
termination_by j => sizeOf j
decreasing_by
  · rename_i hj
    have hs := List.sizeOf_lt_of_mem hj
    simp only [Json.array.sizeOf_spec]
    omega
  · rename_i hm
    have hs := List.sizeOf_lt_of_mem hm
    cases m
    simp only [Json.object.sizeOf_spec, Prod.mk.sizeOf_spec] at hs ⊢
    omega

mutual
/-- What the text of a document is read as, however deep it is. -/
def reread : Json → Option Json
  | null => some null
  | boolean b => some (boolean b)
  | number n => n.reread.map number
  | string s => some (string s)
  | array items => (rereadItems items).map array
  | object members => (rereadMembers members).map object
def rereadItems : List Json → Option (List Json)
  | [] => some []
  | j :: js => (reread j).bind fun j => (rereadItems js).map (j :: ·)
def rereadMembers : List (String × Json) → Option (List (String × Json))
  | [] => some []
  | (k, j) :: ms => (reread j).bind fun j => (rereadMembers ms).map ((k, j) :: ·)
end

def rereadWithin (depth : Nat) (j : Json) : Option Json :=
  if j.depth ≤ depth then j.reread else none

def rereadItemsWithin (depth : Nat) (js : List Json) : Option (List Json) :=
  if depthOfItems js ≤ depth then rereadItems js else none

def rereadMembersWithin (depth : Nat) (ms : List (String × Json)) :
    Option (List (String × Json)) :=
  if depthOfMembers ms ≤ depth then rereadMembers ms else none

section
variable {depth : Nat} {j : Json} {js : List Json} {ms : List (String × Json)}

theorem rereadItemsWithin_nil : rereadItemsWithin depth [] = some [] := by
  simp [rereadItemsWithin, depthOfItems, rereadItems]

theorem rereadItemsWithin_cons :
    rereadItemsWithin depth (j :: js) =
      (j.rereadWithin depth).bind fun j => (rereadItemsWithin depth js).map (j :: ·) := by
  simp only [rereadItemsWithin, rereadWithin, depthOfItems, rereadItems, Nat.max_le]
  by_cases hj : j.depth ≤ depth
  · by_cases hs : depthOfItems js ≤ depth
    · simp [hj, hs]
    · simp [hj, hs]
  · simp [hj]

theorem rereadMembersWithin_nil : rereadMembersWithin depth [] = some [] := by
  simp [rereadMembersWithin, depthOfMembers, rereadMembers]

theorem rereadMembersWithin_cons {k : String} :
    rereadMembersWithin depth ((k, j) :: ms) =
      (j.rereadWithin depth).bind fun j => (rereadMembersWithin depth ms).map ((k, j) :: ·) := by
  simp only [rereadMembersWithin, rereadWithin, depthOfMembers, rereadMembers, Nat.max_le]
  by_cases hj : j.depth ≤ depth
  · by_cases hs : depthOfMembers ms ≤ depth
    · simp [hj, hs]
    · simp [hj, hs]
  · simp [hj]

theorem rereadWithin_array_zero : (array js).rereadWithin 0 = none := by
  simp [rereadWithin, Json.depth]

theorem rereadWithin_array_succ :
    (array js).rereadWithin (depth + 1) = (rereadItemsWithin depth js).map array := by
  by_cases hs : depthOfItems js ≤ depth
  · simp [rereadWithin, rereadItemsWithin, Json.depth, reread, hs]
  · simp [rereadWithin, rereadItemsWithin, Json.depth, hs]

theorem rereadWithin_object_zero : (object ms).rereadWithin 0 = none := by
  simp [rereadWithin, Json.depth]

theorem rereadWithin_object_succ :
    (object ms).rereadWithin (depth + 1) = (rereadMembersWithin depth ms).map object := by
  by_cases hs : depthOfMembers ms ≤ depth
  · simp [rereadWithin, rereadMembersWithin, Json.depth, reread, hs]
  · simp [rereadWithin, rereadMembersWithin, Json.depth, hs]

end

theorem wellFormedItems_iff {items : List Json} :
    WellFormedItems items ↔ ∀ j ∈ items, j.WellFormed := by
  induction items with
  | nil => simp [WellFormedItems]
  | cons j js ih => simp [WellFormedItems, ih]

theorem wellFormedMembers_iff {members : List (String × Json)} :
    WellFormedMembers members ↔ ∀ m ∈ members, m.2.WellFormed := by
  induction members with
  | nil => simp [WellFormedMembers]
  | cons m ms ih => simp [WellFormedMembers, ih]

theorem wellFormed_array {items : List Json} :
    (array items).WellFormed ↔ ∀ j ∈ items, j.WellFormed := wellFormedItems_iff

theorem wellFormed_object {members : List (String × Json)} :
    (object members).WellFormed ↔
      Entries.Distinct members ∧ ∀ m ∈ members, m.2.WellFormed := by
  rw [WellFormed, wellFormedMembers_iff]

end Json

end Conformance
