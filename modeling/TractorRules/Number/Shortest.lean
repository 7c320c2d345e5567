import TractorRules.Number.Binary64

/-!
# Shortest decimal text

A binary number is shown with the fewest digits that read back to it, of those the nearest, a tie to
the even digit.  A leading digit with exponent −4 to 15 is written positionally, any other with a
signed exponent of at least two digits.
-/

namespace TractorRules

structure Decimal where
  digits : Nat
  exponent : Int
deriving DecidableEq, Repr

namespace Decimal

/-- Compares `digits · 10 ^ exponent` with `n · 2 ^ q`, exactly. -/
def compareBinary (d : Decimal) (n : Nat) (q : Int) : Ordering :=
  compare (d.digits * Nat.pow 10 d.exponent.toNat * Nat.pow 2 (-q).toNat)
    (n * Nat.pow 2 q.toNat * Nat.pow 10 (-d.exponent).toNat)

/-- Whether a decimal lies among the numbers whose nearest binary number is `m · 2 ^ q`: between
the midpoints to the two neighbours, the midpoints themselves included for an even mantissa.  Below
a power of two the neighbour is half as far. -/
def readsBack (m : Nat) (q : Int) (d : Decimal) : Bool :=
  let narrow := m == Nat.pow 2 52 && Binary64.minExponent < q
  let low := d.compareBinary (if narrow then 4 * m - 1 else 4 * m - 2) (q - 2)
  let high := d.compareBinary (4 * m + 2) (q - 2)
  let ends := m % 2 == 0
  (low == .gt || ends && low == .eq) && (high == .lt || ends && high == .eq)

/-- The least `k` with `m · 2 ^ q < 10 ^ k`, for a mantissa that is not zero. -/
def magnitude (m : Nat) (q : Int) : Int :=
  let guess := ((Nat.log2 m : Int) + q) * 30103 / 100000
  let above := fun k : Int => compareBinary ⟨1, k⟩ m q == .gt
  if above guess then guess else if above (guess + 1) then guess + 1 else guess + 2

/-- The nearer of the two decimals around `m · 2 ^ q` with the given last place, of those that read
back. -/
def onGrid? (m : Nat) (q : Int) (place : Int) : Option Decimal :=
  let num := m * Nat.pow 2 q.toNat * Nat.pow 10 (-place).toNat
  let den := Nat.pow 2 (-q).toNat * Nat.pow 10 place.toNat
  let below : Decimal := ⟨num / den, place⟩
  let above : Decimal := ⟨num / den + 1, place⟩
  match readsBack m q below, readsBack m q above with
  | true, true =>
    some (if 2 * num < (2 * below.digits + 1) * den
        ∨ (2 * num = (2 * below.digits + 1) * den ∧ below.digits % 2 = 0) then below else above)
  | true, false => some below
  | false, true => some above
  | false, false => none

/-- The decimal without trailing zeros in its digits; `fuel` bounds their number. -/
def stripZeros : (fuel : Nat) → Decimal → Decimal
  | 0, d => d
  | fuel + 1, d =>
    if d.digits ≠ 0 ∧ d.digits % 10 = 0 then stripZeros fuel ⟨d.digits / 10, d.exponent + 1⟩ else d

/-- The decimal with the fewest digits that reads back to `m · 2 ^ q`, for a mantissa that is not
zero.  Seventeen digits always suffice. -/
def shortest (m : Nat) (q : Int) : Decimal :=
  let k := magnitude m q
  let found := (List.range 17).findSome? fun n : Nat => onGrid? m q (k - 1 - (n : Int))
  stripZeros 20 (found.getD ⟨m * Nat.pow 2 q.toNat * Nat.pow 5 (-q).toNat, min q 0⟩)

def zeros (n : Nat) : String := String.ofList (List.replicate n '0')

def layout (d : Decimal) : String :=
  let digits := Nat.toDigits 10 d.digits
  let lead := d.exponent + digits.length - 1
  if -4 ≤ lead ∧ lead < 16 then
    if 0 ≤ d.exponent then
      String.ofList digits ++ zeros d.exponent.toNat ++ ".0"
    else if 0 ≤ lead then
      let whole := (lead + 1).toNat
      String.ofList (digits.take whole) ++ "." ++ String.ofList (digits.drop whole)
    else
      "0." ++ zeros (-lead - 1).toNat ++ String.ofList digits
  else
    let fraction := if digits.length = 1 then "" else "." ++ String.ofList (digits.drop 1)
    let size := Nat.toDigits 10 lead.natAbs
    String.ofList (digits.take 1) ++ fraction ++ (if lead < 0 then "e-" else "e+")
      ++ zeros (2 - size.length) ++ String.ofList size

end Decimal

def Binary64.display : Binary64 → String
  | .nan => "nan"
  | .infinite negative => if negative then "-inf" else "inf"
  | .finite negative m q =>
    (if negative then "-" else "") ++ if m = 0 then "0.0" else (Decimal.shortest m q).layout

end TractorRules
