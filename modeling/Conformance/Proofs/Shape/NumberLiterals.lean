import Conformance.Proofs.Shape.RoundTrip

/-!
# Number literals over the wire

The literal of a finite number can always be written, and the digits that are
written identify the number. The reader takes these digits exactly but rounds
twice when it puts the number together again: the significand first, and then
its product with, or quotient by, a rounded power of ten. So the literal comes
back as it was exactly when these two roundings lead back to the number. They do
not for the largest odd whole number, `2 ^ 53 - 1`: with the zero that is
written behind its point it no longer fits the significand of a number.
-/
namespace Conformance.Shape

section
variable {x y : Finite} {u : Shape}

def numberLiteral (x : Finite) : Shape := literal (.number (.finite x))

theorem wireText_numberLiteral (x : Finite) :
    (numberLiteral x).wireText = .ok (numberLiteral x).document.compact := by
  refine wireText_eq_ok_iff.2 ⟨rfl, ?_⟩
  intro y hy
  have h : y = .finite x := by simpa [numberLiteral, nodes] using hy
  rw [h]
  rfl

theorem decodeText_numberLiteral :
    decodeText (numberLiteral x).document.compact = .ok u ↔
      ∃ y, x.reread = some y ∧ u = numberLiteral y := by
  have hr : (numberLiteral x).reread = x.reread.map numberLiteral := by
    simp only [numberLiteral, reread, Literal.reread, Option.map_map]
    rfl
  have hd : (numberLiteral x).document.depth ≤ 127 := by
    simp [numberLiteral, document, tagged, Json.depth, Json.depthOfMembers, Literal.document]
  rw [decodeText_compact_eq_ok_iff, hr, Option.map_eq_some_iff]
  constructor
  · intro h
    obtain ⟨⟨y, hy, hu⟩, -⟩ := h
    exact ⟨y, hy, hu.symm⟩
  · intro h
    obtain ⟨y, hy, hu⟩ := h
    refine ⟨⟨y, hy, hu.symm⟩, ?_, hd⟩
    rw [hu, numberLiteral, spelled_literal]
    intro z hz
    cases hz
    rfl

theorem accept_numberLiteral :
    (numberLiteral y).accept (.number (.finite x)) = .ok (.number (.finite x)) ↔
      x.equals y = true := by
  have ha : (numberLiteral y).accept (.number (.finite x)) =
      if x.equals y then .ok (.number (.finite x))
      else .error (.literalMismatch (String.ofList (Literal.number (.finite y)).text)) := by
    rw [numberLiteral, accept]
    rfl
  rw [ha]
  by_cases h : x.equals y = true
  · simp [h]
  · simp [h]

theorem same_numberLiteral : (numberLiteral x).same (numberLiteral y) = x.equals y := rfl

theorem numberLiteral_round_trip_iff :
    (∃ u, decodeText (numberLiteral x).document.compact = .ok u ∧
      (numberLiteral x).same u = true) ↔ x.reread = some x := by
  simp only [decodeText_numberLiteral]
  constructor
  · intro h
    obtain ⟨u, ⟨y, hy, hu⟩, hs⟩ := h
    rw [hu, same_numberLiteral] at hs
    rw [hy, Finite.eq_of_reread_equals hy hs]
  · intro h
    exact ⟨numberLiteral x, ⟨x, h, rfl⟩, x.equals_refl⟩

theorem validate_numberLiteral_iff :
    validate (.number (.finite x)) (some (numberLiteral x).document.compact)
        (some schemaVersion) = .ok (.number (.finite x)) ↔ x.reread = some x := by
  have hv : checkVersion schemaVersion = .ok () := rfl
  simp only [validate, hv]
  constructor
  · intro h
    cases hd : decodeText (numberLiteral x).document.compact with
    | error f =>
      rw [hd] at h
      cases h
    | ok u =>
      rw [hd] at h
      obtain ⟨y, hy, rfl⟩ := decodeText_numberLiteral.1 hd
      rw [hy, Finite.eq_of_reread_equals hy (accept_numberLiteral.1 h)]
  · intro h
    rw [decodeText_numberLiteral.2 ⟨x, h, rfl⟩]
    exact accept_numberLiteral.2 x.equals_refl

/-- The literal of a finite number is always written and always accepts the number, but it comes
back from the wire, and accepts the number there, exactly when the significand and the power of
ten that are gathered from the written digits give the number again. -/
theorem numberLiteral_survives_iff (x : Finite) :
    Literal.ofNumber? (.finite x) = some (.number (.finite x)) ∧
      (numberLiteral x).accept (.number (.finite x)) = .ok (.number (.finite x)) ∧
      ∃ s, (numberLiteral x).wireText = .ok s ∧
        ((∃ u, decodeText s = .ok u ∧ (numberLiteral x).same u = true) ↔
          Finite.ofParts? x.negative (decimalRead x.rank).digits (decimalRead x.rank).exponent =
            some x) ∧
        (validate (.number (.finite x)) (some s) (some schemaVersion) =
            .ok (.number (.finite x)) ↔
          Finite.ofParts? x.negative (decimalRead x.rank).digits (decimalRead x.rank).exponent =
            some x) :=
  ⟨rfl, accept_numberLiteral.2 x.equals_refl, _, wireText_numberLiteral x,
    numberLiteral_round_trip_iff, validate_numberLiteral_iff⟩

end

def largestOdd : Finite := ⟨false, 1076 * binade - 1, by decide⟩

theorem shortest_largestOdd : shortest .toEven largestOdd.rank = ⟨9007199254740991, 0⟩ := by
  have h : (List.range 17).findSome? (fun (n : Nat) =>
      neighbour .toEven largestOdd.rank (leadingExponent largestOdd.rank - n)) =
      some ⟨9007199254740991, 0⟩ := by
    decide +kernel
  simp only [shortest, h]
  rw [stripZeros, dif_neg (by decide)]

theorem reread_largestOdd :
    largestOdd.reread = some ⟨false, largestOdd.rank - 1, by decide⟩ := by
  have hd : decimalRead largestOdd.rank = ⟨90071992547409910, -1⟩ := by
    rw [decimalRead, if_neg (by decide), shortest_largestOdd]
    rfl
  have hr : Finite.dividedRank (rankOfNat 90071992547409910) 1 = largestOdd.rank - 1 := by
    rw [Finite.dividedRank, if_pos (by decide)]
    decide +kernel
  rw [Finite.reread, hd]
  simp only [Finite.ofParts?]
  rw [if_pos (by decide)]
  simp only [Int.natAbs_neg, Int.natAbs_one, hr]
  rfl

theorem largestOdd_lost :
    Double.ofNat 9007199254740991 = .finite largestOdd ∧
      ∃ s, (numberLiteral largestOdd).wireText = .ok s ∧
        (¬ ∃ u, decodeText s = .ok u ∧ (numberLiteral largestOdd).same u = true) ∧
        validate (.number (.finite largestOdd)) (some s) (some schemaVersion) ≠
          (numberLiteral largestOdd).accept (.number (.finite largestOdd)) := by
  have hne : largestOdd.reread ≠ some largestOdd := by
    rw [reread_largestOdd]
    intro h
    exact absurd (congrArg (Option.map Finite.rank) h) (by decide)
  refine ⟨by decide +kernel, _, wireText_numberLiteral largestOdd, ?_, ?_⟩
  · rw [numberLiteral_round_trip_iff]
    exact hne
  · rw [accept_numberLiteral.2 largestOdd.equals_refl, ne_eq, validate_numberLiteral_iff]
    exact hne

end Conformance.Shape
