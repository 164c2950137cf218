import Conformance.Proofs.Double.Integers
import Conformance.Proofs.Shape.NumberLiterals
import Conformance.Proofs.Shape.WaysToDecode

/-!
# Integer literals

An integer comes to stand in a number literal in two ways. A shape that is built
with it is written with a zero behind its point, and the reader makes ten times
the integer of this and divides by ten. Both steps are exact while ten times the
integer is at most `2 ^ 53`, so every integer of 32 bits comes back as it was. A
text that has the integer without a point needs no division, and there integers
are told apart up to `2 ^ 53` itself, whether they stand in a value or a literal.
-/
namespace Conformance

section
variable {n : Nat}

theorem decimalRead_rankOfNat (h : n < 2 ^ 53) : decimalRead (rankOfNat n) = ⟨n * 10, -1⟩ := by
  by_cases h0 : n = 0
  · rw [h0, rankOfNat_zero]
    rfl
  · have hr : rankOfNat n ≠ 0 := fun hr => h0 ((rankOfNat_eq_zero_iff h.le).1 hr)
    have hlt : n < 10 ^ 16 := h.trans (by decide)
    obtain ⟨he, hd⟩ := shortest_of_integer .toEven (Nat.pos_of_ne_zero h0) h
    rw [decimalRead, if_neg hr, Decimal.asRead, hd, if_pos ⟨he, hlt⟩]

theorem dividedRank_of_integer (h : n * 10 ≤ 2 ^ 53) :
    Finite.dividedRank (rankOfNat (n * 10)) 1 = rankOfNat n := by
  have hn : n ≤ 2 ^ 53 := (Nat.le_mul_of_pos_right n (by decide)).trans h
  have hten : units (Finite.powerRank 1) = 10 * unitsOfOne := by
    rw [Finite.powerRank, show Nat.pow 10 1 = 10 from rfl, units_rankOfNat (by decide)]
  have hq : n * 10 * unitsOfOne * unitsOfOne = units (rankOfNat n) * (10 * unitsOfOne) := by
    rw [units_rankOfNat hn, Nat.mul_right_comm n 10, Nat.mul_assoc]
  rw [Finite.dividedRank, if_pos (by decide), quotientRank, units_rankOfNat h, hten, hq]
  exact nearestRank_units (Nat.mul_pos (by decide) unitsOfOne_pos)

theorem Finite.reread_ofInt {n : Int} (h : n.natAbs * 10 ≤ 2 ^ 53) (hn : n.natAbs ≤ 2 ^ 53) :
    (Finite.ofInt n hn).reread = some (Finite.ofInt n hn) := by
  have hd : decimalRead (rankOfNat n.natAbs) = ⟨n.natAbs * 10, -1⟩ :=
    decimalRead_rankOfNat (by omega)
  simp only [reread, Finite.ofInt, hd, ofParts?]
  rw [if_pos (by decide)]
  simp only [Int.natAbs_neg, Int.natAbs_one, dividedRank_of_integer h]
  exact dif_pos (rankOfNat_finite hn)

end

theorem natAbs_toInt_le (n : Int32) : n.toInt.natAbs ≤ 2 ^ 31 := by
  have hlow := n.le_toInt
  have hhigh := n.toInt_lt
  omega

/-- The texts of an integer without fraction and exponent. -/
inductive PlainText : Int → String → Prop
  | canonical (n : Int) : PlainText n (toString n)
  | minusZero : PlainText 0 "-0"

theorem toList_toString (n : Int) : (toString n).toList = Json.integerText n := by
  rw [Int.toString_eq_repr, Int.repr_eq_if, Json.integerText]
  by_cases h : n < 0
  · have hn : (-n).toNat = n.natAbs := by omega
    rw [if_neg (by omega), if_pos h, hn, String.toList_append, Nat.toList_repr]
    rfl
  · have hn : n.toNat = n.natAbs := by omega
    rw [if_pos (by omega), if_neg h, hn, Nat.toList_repr, List.nil_append]

theorem PlainText.readAs {n : Int} {s : String} (h : PlainText n s) (hn : n.natAbs ≤ 2 ^ 53) :
    ∃ k, Reader.ReadAs s.toList (some k) ∧ k.toDouble.equals (.ofInt n) = true := by
  cases h with
  | canonical =>
    refine ⟨.integer n (by omega) (by omega), ?_, (Double.equals_ofInt_iff hn hn).2 rfl⟩
    rw [toList_toString]
    exact Reader.readAs_integer n _ _
  | minusZero =>
    refine ⟨.float { Finite.zero with negative := true }, ⟨'-', ['0'], rfl, rfl, ?_⟩, ?_⟩
    · intro rest hr
      rw [Reader.number, if_pos rfl, List.singleton_append,
        Reader.unsignedNumber_zero hr.digit, Reader.afterWhole_end hr]
      rfl
    · rw [Double.ofInt_eq hn]
      simp [Json.Number.toDouble, Double.equals, Finite.equals, Finite.ofInt, Finite.zero,
        rankOfNat_zero]

namespace Shape

theorem accepts_number_iff {x y : Double} :
    (∃ w, (literal (.number x)).accept (.number y) = .ok w) ↔ y.equals x = true := by
  simp only [accept_eq_ok_iff_check, exists_eq_left, check, Literal.check_eq_ok,
    ← Literal.matches_iff]
  rfl

theorem numberLiteral_ofInt {n : Int} (h : n.natAbs ≤ 2 ^ 53) :
    literal (.number (.ofInt n)) = numberLiteral (Finite.ofInt n h) := by
  rw [numberLiteral, Double.ofInt_eq h]

/-- The literal of an integer of 32 bits is written and read back as it was, and accepts no other
integer than that one. -/
theorem int32_literals_told_apart (n : Int32) :
    ∃ s, (literal (.ofInt32 n)).wireText = .ok s ∧
      decodeText s = .ok (literal (.ofInt32 n)) ∧
      ∀ m : Int32, (∃ w, validate (.ofInt32 m) (some s) (some schemaVersion) = .ok w) ↔
        m = n := by
  have hle (k : Int32) : k.toInt.natAbs ≤ 2 ^ 53 := (natAbs_toInt_le k).trans (by decide)
  have hn : literal (.ofInt32 n) = numberLiteral (Finite.ofInt n.toInt (hle n)) :=
    numberLiteral_ofInt (hle n)
  have hr := Finite.reread_ofInt (n := n.toInt) (by have := natAbs_toInt_le n; omega) (hle n)
  have hd := decodeText_numberLiteral.2 ⟨_, hr, rfl⟩
  rw [← hn] at hd
  refine ⟨_, hn ▸ wireText_numberLiteral _, hd, fun m => ?_⟩
  rw [validate_of_decodeText hd]
  exact accepts_number_iff.trans
    ((Double.equals_ofInt_iff (hle m) (hle n)).trans Int32.toInt_inj)

section
variable {s : String} {k : Json.Number}

def literalSource (s : String) : String := "\x7b\"tag\":\"literal\",\"value\":" ++ s ++ "\x7d"

theorem toList_literalSource : (literalSource s).toList =
    '{' :: '"' :: ("tag".toList.flatMap Json.escaped ++ '"' :: ':' ::
      ((Json.string "literal").text ++ ',' :: '"' ::
        ("value".toList.flatMap Json.escaped ++ '"' :: ':' :: (s.toList ++ ['}'])))) := by
  have h : "\x7b\"tag\":\"literal\",\"value\":".toList =
      '{' :: '"' :: ("tag".toList.flatMap Json.escaped ++ '"' :: ':' ::
        ((Json.string "literal").text ++ ',' :: '"' ::
          ("value".toList.flatMap Json.escaped ++ ['"', ':']))) := by rfl
  unfold literalSource
  simp only [String.toList_append, h, List.append_assoc, List.cons_append, List.nil_append]
  rfl

open Reader in
theorem ofText_literalSource (h : ReadAs s.toList (some k)) :
    Json.ofText (literalSource s) =
      .ok (.object [("tag", .string "literal"), ("value", .number k)]) := by
  have htag (r : List Char) := @readBack_of_wellFormed (.string "literal") trivial 126 (',' :: r)
    (endsNumber_cons (by decide) r)
  have hword : (Json.string "literal").rereadWithin 126 = some (.string "literal") := rfl
  have hvalue := @toOption_document_number 126 ['}'] _ _ h (endsNumber_cons (by decide) [])
  apply eq_ok_of_toOption
  rw [Json.ofText, toOption_runToEnd, toList_literalSource, depthLimit, @toOption_document_object
    126 [] _ (some [("tag", .string "literal"), ("value", .number k)])]
  · rfl
  · rw [toOption_gatherMember (htag _) (by decide) rfl, hword, Option.bind_some,
      toOption_gatherMember hvalue (by decide) rfl, Option.map_some, Option.bind_some,
      gatherEntries_close]
    rfl

theorem decodeText_literalSource (h : Reader.ReadAs s.toList (some k)) :
    decodeText (literalSource s) = .ok (literal (.number k.toDouble)) := by
  rw [decodeText_of_ofText (ofText_literalSource h)]
  rfl

/-- A literal with a plain integer for its value accepts a plain integer exactly when the two are
equal; both may be as large as `2 ^ 53`. -/
theorem plain_integers_told_apart {a b : Int} {s t : String} (ha : a.natAbs ≤ 2 ^ 53)
    (hb : b.natAbs ≤ 2 ^ 53) (hs : PlainText a s) (ht : PlainText b t) :
    ∃ v, Value.ofText t = .ok v ∧
      ((∃ w, validate v (some (literalSource s)) (some schemaVersion) = .ok w) ↔ a = b) := by
  obtain ⟨k, hk, hka⟩ := hs.readAs ha
  obtain ⟨l, hl, hlb⟩ := ht.readAs hb
  have hv : Value.ofText t = .ok (.number l.toDouble) := by
    rw [Value.ofText, Json.ofText_of_readAs hl]
    rfl
  refine ⟨_, hv, ?_⟩
  rw [validate_of_decodeText (decodeText_literalSource hk), accepts_number_iff,
    Double.equals_right hka, Double.equals_comm, Double.equals_right hlb,
    Double.equals_ofInt_iff ha hb]

theorem plain_integers_told_apart_limit :
    ∃ v, Value.ofText "9007199254740992" = .ok v ∧
      (∃ w, validate v (some (literalSource "9007199254740992")) (some schemaVersion) = .ok w) ∧
      ¬ ∃ w, validate v (some (literalSource "9007199254740991")) (some schemaVersion) = .ok w := by
  have hs : PlainText 9007199254740992 "9007199254740992" := .canonical 9007199254740992
  have ht : PlainText 9007199254740991 "9007199254740991" := .canonical 9007199254740991
  obtain ⟨v, hv, h⟩ := plain_integers_told_apart (by decide) (by decide) hs hs
  obtain ⟨v', hv', h'⟩ := plain_integers_told_apart (by decide) (by decide) ht hs
  obtain rfl := Except.ok.inj (hv.symm.trans hv')
  exact ⟨v, hv, h.2 rfl, fun hw => absurd (h'.1 hw) (by decide)⟩

end

end Shape
end Conformance
