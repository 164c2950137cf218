import Conformance.Double.Rounding
import Conformance.Double.Shortest

/-!
# Writing numbers

Numbers are written with the fewest digits that identify them. A `NumberStyle`
holds the decisions that are left: how a tie between two shortest decimals is
settled, which exponents are written positionally, and whether a whole number
keeps a fraction. `NumberStyle.canonical` is the style of canonical text, and
`NumberStyle.json` that of JSON.
-/
namespace Conformance

structure NumberStyle where
  tie : Tie
  positional : Int → Bool
  fraction : Bool

namespace NumberStyle

/-- Never a power of ten and never an empty fraction; ties go away from zero. -/
def canonical : NumberStyle := ⟨.upward, fun _ => true, false⟩

/-- Positional from `0.00001` to below `10 ^ 16`, and always with a fraction there. -/
def json : NumberStyle := ⟨.toEven, fun e => -5 ≤ e && e ≤ 15, true⟩

def positionalText (fraction : Bool) (digits : List Char) (lead : Int) : List Char :=
  if lead < 0 then
    '0' :: '.' :: (List.replicate (-lead - 1).toNat '0' ++ digits)
  else
    let whole := lead.toNat + 1
    if digits.length ≤ whole then
      digits ++ List.replicate (whole - digits.length) '0' ++ (if fraction then ['.', '0'] else [])
    else
      digits.take whole ++ '.' :: digits.drop whole

def exponentText (e : Int) : List Char :=
  'e' :: (if e < 0 then '-' else '+') :: Nat.toDigits 10 e.natAbs

def scientificText (digits : List Char) (lead : Int) : List Char :=
  (match digits with
    | [d] => [d]
    | d :: ds => d :: '.' :: ds
    | [] => []) ++ exponentText lead

def decimalText (style : NumberStyle) (d : Decimal) : List Char :=
  let digits := Nat.toDigits 10 d.digits
  let lead := d.exponent + (digits.length - 1 : Nat)
  if style.positional lead then positionalText style.fraction digits lead
  else scientificText digits lead

def magnitudeText (style : NumberStyle) (rank : Nat) : List Char :=
  if rank = 0 then (if style.fraction then ['0', '.', '0'] else ['0'])
  else style.decimalText (shortest style.tie rank)

end NumberStyle

def Finite.text (style : NumberStyle) (x : Finite) : List Char :=
  (if x.negative then ['-'] else []) ++ style.magnitudeText x.rank

namespace Double

def text (style : NumberStyle) : Double → List Char
  | .finite x => x.text style
  | .infinite false => ['i', 'n', 'f']
  | .infinite true => ['-', 'i', 'n', 'f']
  | .nan => ['N', 'a', 'N']

def canonicalText (x : Double) : String := String.ofList (x.text .canonical)

end Double
end Conformance
