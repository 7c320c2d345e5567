import TractorRules.Json.Basic
import TractorRules.Text.Digit

/-!
# JSON tokens

Splits a text into the tokens of JSON: brackets, commas and colons, and the values without parts.
Numbers may also be one of the words for an infinity or for no number, and an escape may name a lone
surrogate.
-/

namespace TractorRules.Json

/-- A token: a value without parts, or a sign. -/
inductive Token where
  | atom (value : Json)
  /-- An integer with more digits than are read. -/
  | longInteger (digits : Nat)
  | quoted (t : Text)
  | openArray
  | closeArray
  | openObject
  | closeObject
  | comma
  | colon
  /-- What no token begins with. -/
  | invalid

namespace Token

/-! ### Texts -/

def hexValue? (c : CodePoint) : Option Nat :=
  if 48 ≤ c ∧ c ≤ 57 then some (c - 48)
  else if 65 ≤ c ∧ c ≤ 70 then some (c - 55)
  else if 97 ≤ c ∧ c ≤ 102 then some (c - 87)
  else none

def hexQuad? (a b c d : CodePoint) : Option Nat := do
  return 4096 * (← hexValue? a) + 256 * (← hexValue? b) + 16 * (← hexValue? c) + (← hexValue? d)

def escapeValue? : CodePoint → Option CodePoint
  | 34 => some 34
  | 92 => some 92
  | 47 => some 47
  | 98 => some 8
  | 102 => some 12
  | 110 => some 10
  | 114 => some 13
  | 116 => some 9
  | _ => none

def isHighSurrogate (c : CodePoint) : Bool := 0xD800 ≤ c && c ≤ 0xDBFF

def isLowSurrogate (c : CodePoint) : Bool := 0xDC00 ≤ c && c ≤ 0xDFFF

/-- Adds the code point of a `\u` escape to those read so far, last first.  Right after the escape of a
high surrogate, a low one makes one code point with it. -/
def pushEscaped (afterHigh : Bool) (c : CodePoint) : List CodePoint → List CodePoint
  | [] => [c]
  | high :: read =>
    if afterHigh && isLowSurrogate c then
      (0x10000 + (high - 0xD800) * 1024 + (c - 0xDC00)) :: read
    else c :: high :: read

/-- Reads a text up to its closing quote; `read` holds the code points so far, last first, and
`afterHigh` says whether the last of them is a high surrogate written as an escape.  Only two escapes
make a pair: a surrogate that stands in the text itself stays alone. -/
def scanText (afterHigh : Bool) (read : List CodePoint) :
    List CodePoint → Option (Text × List CodePoint)
  | [] => none
  | 34 :: rest => some (⟨read.reverse⟩, rest)
  | 92 :: 117 :: a :: b :: c :: d :: rest => do
    let unit ← hexQuad? a b c d
    scanText (isHighSurrogate unit) (pushEscaped afterHigh unit read) rest
  | 92 :: c :: rest => do
    scanText false ((← escapeValue? c) :: read) rest
  | c :: rest => if c < 32 then none else scanText false (c :: read) rest

/-! ### Numbers -/

def isDigit (c : CodePoint) : Bool := 48 ≤ c && c ≤ 57

def digitsValue (digits : List CodePoint) : Nat := digits.foldl (fun n c => 10 * n + (c - 48)) 0

def scanFraction : List CodePoint → List CodePoint × List CodePoint
  | 46 :: c :: rest =>
    if isDigit c then (c :: rest.takeWhile isDigit, rest.dropWhile isDigit) else ([], 46 :: c :: rest)
  | rest => ([], rest)

def scanPower : List CodePoint → Option Nat × List CodePoint
  | c :: rest =>
    if isDigit c then (some (digitsValue (c :: rest.takeWhile isDigit)), rest.dropWhile isDigit)
    else (none, c :: rest)
  | [] => (none, [])

def scanExponent (points : List CodePoint) : Option Int × List CodePoint :=
  let attempt (negative : Bool) (rest : List CodePoint) : Option Int × List CodePoint :=
    match scanPower rest with
    | (some n, rest) => (some (if negative then -Int.ofNat n else Int.ofNat n), rest)
    | (none, _) => (none, points)
  match points with
  | c :: rest =>
    if c = 101 ∨ c = 69 then
      match rest with
      | 43 :: rest => attempt false rest
      | 45 :: rest => attempt true rest
      | rest => attempt false rest
    else (none, points)
  | [] => (none, points)

/-- Splits off the digits before the point; a zero stands alone. -/
def scanWhole : List CodePoint → List CodePoint × List CodePoint
  | 48 :: rest => ([48], rest)
  | rest => (rest.takeWhile isDigit, rest.dropWhile isDigit)

def scanNumber (negative : Bool) (points : List CodePoint) : Option (Token × List CodePoint) :=
  match scanWhole points with
  | ([], _) => none
  | (whole, rest) =>
    match scanFraction rest with
    | (fraction, rest) =>
      match fraction, scanExponent rest with
      | [], (none, rest) =>
        if Text.maxDigits < whole.length then some (.longInteger whole.length, rest)
        else
          let n := Int.ofNat (digitsValue whole)
          some (.atom (.int (if negative then -n else n)), rest)
      | fraction, (power, rest) =>
        let value := Binary64.ofDecimal negative (digitsValue (whole ++ fraction))
          (power.getD 0 - fraction.length)
        some (.atom (.float value), rest)

/-! ### Words -/

def words : List (List CodePoint × Json) := [
  ((Text.ofString "null").points, .null),
  ((Text.ofString "true").points, .bool true),
  ((Text.ofString "false").points, .bool false),
  ((Text.ofString "NaN").points, .float .nan),
  ((Text.ofString "Infinity").points, .float (.infinite false)),
  ((Text.ofString "-Infinity").points, .float (.infinite true))]

def scanWord (points : List CodePoint) : Option (Json × List CodePoint) :=
  words.findSome? fun (word, value) =>
    if word.isPrefixOf points then some (value, points.drop word.length) else none

/-! ### Tokens -/

def scan (points : List CodePoint) : Option (Token × List CodePoint) :=
  match points with
  | 91 :: rest => some (.openArray, rest)
  | 93 :: rest => some (.closeArray, rest)
  | 123 :: rest => some (.openObject, rest)
  | 125 :: rest => some (.closeObject, rest)
  | 44 :: rest => some (.comma, rest)
  | 58 :: rest => some (.colon, rest)
  | 34 :: rest => (scanText false [] rest).map fun (t, rest) => (.quoted t, rest)
  | _ =>
    match scanWord points, points with
    | some (value, rest), _ => some (.atom value, rest)
    | none, 45 :: rest => scanNumber true rest
    | none, points => scanNumber false points

def isSpace (c : CodePoint) : Bool := c == 32 || c == 9 || c == 10 || c == 13

/-- The tokens of a text, up to the first that is invalid; `fuel` bounds their number. -/
def scanAll : (fuel : Nat) → List CodePoint → List Token
  | 0, points => if points.all isSpace then [] else [.invalid]
  | fuel + 1, points =>
    match points.dropWhile isSpace with
    | [] => []
    | points =>
      match scan points with
      | some (token, rest) => token :: scanAll fuel rest
      | none => [.invalid]

end Token

def tokens (t : Text) : List Token := Token.scanAll t.points.length t.points

end TractorRules.Json
