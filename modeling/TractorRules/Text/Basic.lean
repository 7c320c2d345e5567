/-!
# Text as code points

Requests come as text whose escapes may name a lone surrogate, which no character is.  So a text is
a list of code points.  What the library writes itself is a `String`.
-/

namespace TractorRules

/-- A Unicode code point, surrogates included. -/
abbrev CodePoint := Nat

structure Text where
  points : List CodePoint
deriving DecidableEq, Repr

namespace Text

def ofString (s : String) : Text := ⟨s.toList.map Char.toNat⟩

/-- The character of a code point; a surrogate becomes the replacement character. -/
def charOf (c : CodePoint) : Char := if c.isValidChar then Char.ofNat c else '\uFFFD'

/-- The text as a string, surrogates replaced. -/
def asString (t : Text) : String := String.ofList (t.points.map charOf)

def precedesOrEquals (s t : Text) : Bool := (compare s.points t.points).isLE

/-! ### Classes given by ranges -/

/-- A range of code points, both ends included. -/
abbrev CodeRange := CodePoint × CodePoint

def inRanges : List CodeRange → CodePoint → Bool
  | [], _ => false
  | (first, last) :: rest, c => if c < first then false else c ≤ last || inRanges rest c

/-- The blank code points, as ascending ranges. -/
def blankRanges : List CodeRange := [
  (9, 13), (28, 32), (133, 133), (160, 160), (5760, 5760), (8192, 8202), (8232, 8233),
  (8239, 8239), (8287, 8287), (12288, 12288)]

def isBlank (c : CodePoint) : Bool := inRanges blankRanges c

/-- The code points without those at either end that satisfy `drop`. -/
def trimBy (drop : CodePoint → Bool) (points : List CodePoint) : List CodePoint :=
  ((points.dropWhile drop).reverse.dropWhile drop).reverse

def trim (t : Text) : Text := ⟨trimBy isBlank t.points⟩

/-! ### Case mappings given by runs -/

/-- Letters `first`, `first + stride`, … `last`, all mapped by adding `shift`. -/
structure CaseRun where
  first : CodePoint
  last : CodePoint
  stride : Nat
  shift : Int
deriving Repr

namespace CaseRun

def covers (r : CaseRun) (c : CodePoint) : Bool :=
  r.first ≤ c && c ≤ r.last && (c - r.first) % r.stride == 0

/-- The image of a code point under the first run that covers it, or the code point itself. -/
def apply (runs : List CaseRun) (c : CodePoint) : CodePoint :=
  match runs.find? (·.covers c) with
  | some r => (Int.ofNat c + r.shift).toNat
  | none => c

end CaseRun

end Text

end TractorRules
