import TractorRules.Text.Basic

/-!
# Digits and integers

Two classes of digits.  A *decimal digit* of any script has a value and may stand in an integer; a
*digit-like* sign, such as a superscript, counts as a digit but has no place in an integer.  And an
integer is neither read nor written with more than `maxDigits` digits.  So a text of digits need not be
readable as an integer.
-/

namespace TractorRules.Text

/-- The zero of each run of ten decimal digits, ascending. -/
def decimalZeros : List CodePoint := [
  48, 1632, 1776, 1984, 2406, 2534, 2662, 2790, 2918, 3046, 3174, 3302, 3430, 3558, 3664, 3792,
  3872, 4160, 4240, 6112, 6160, 6470, 6608, 6784, 6800, 6992, 7088, 7232, 7248, 42528, 43216,
  43264, 43472, 43504, 43600, 44016, 65296, 66720, 68912, 69734, 69872, 69942, 70096, 70384,
  70736, 70864, 71248, 71360, 71472, 71904, 72016, 72784, 73040, 73120, 92768, 92864, 93008,
  120782, 120792, 120802, 120812, 120822, 123200, 123632, 125264, 130032]

/-- Signs that count as digits without being decimal digits, as ascending ranges. -/
def digitLikeRanges : List CodeRange := [
  (178, 179), (185, 185), (4969, 4977), (6618, 6618), (8304, 8304), (8308, 8313), (8320, 8329),
  (9312, 9320), (9332, 9340), (9352, 9360), (9450, 9450), (9461, 9469), (9471, 9471),
  (10102, 10110), (10112, 10120), (10122, 10130), (68160, 68163), (69216, 69224), (69714, 69722),
  (127232, 127242)]

def digitValue? (c : CodePoint) : Option Nat :=
  if c < 128 then
    if 48 ≤ c ∧ c ≤ 57 then some (c - 48) else none
  else
    (decimalZeros.find? fun z => z ≤ c && c < z + 10).map fun z => c - z

def isDigit (c : CodePoint) : Bool :=
  (digitValue? c).isSome || inRanges digitLikeRanges c

def isDigits (t : Text) : Bool := !t.points.isEmpty && t.points.all isDigit

/-- Blanks that may surround an integer: all but the four information separators. -/
def isPadding (c : CodePoint) : Bool := isBlank c && !(28 ≤ c && c ≤ 31)

/-- The most digits of an integer that is read or written. -/
def maxDigits : Nat := 4300

def isDecimal (c : CodePoint) : Bool := (digitValue? c).isSome

/-- The least number with more digits than that. -/
def digitBound : Nat := Nat.pow 10 maxDigits

/-- Whether an integer has few enough digits to be written. -/
def isWritable (n : Int) : Bool := n.natAbs < digitBound

/-- Reads decimal digits after a value; single underscores may stand between two digits. -/
def readDigits (value : Nat) : List CodePoint → Option Nat
  | [] => some value
  | c :: rest =>
    if c = 95 then
      match rest with
      | [] => none
      | d :: rest => do readDigits (10 * value + (← digitValue? d)) rest
    else do readDigits (10 * value + (← digitValue? c)) rest

def readNatural? (points : List CodePoint) : Option Nat :=
  if maxDigits < points.countP isDecimal then none
  else
    match points with
    | [] => none
    | c :: rest => do readDigits (← digitValue? c) rest

/-- How many decimal digits a text begins with. -/
def leadingDigits (t : Text) : Nat := ((trimBy isPadding t.points).takeWhile isDecimal).length

/-- Reads an integer: padding, an optional sign, decimal digits. -/
def toInteger? (t : Text) : Option Int :=
  match trimBy isPadding t.points with
  | 43 :: digits => (readNatural? digits).map Int.ofNat
  | 45 :: digits => (readNatural? digits).map fun n => -Int.ofNat n
  | digits => (readNatural? digits).map Int.ofNat

end TractorRules.Text
