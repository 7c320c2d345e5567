import TractorRules.TrickUnit.Shape
import TractorRules.Counts

/-!
# Descriptions of shapes

Shapes in words: `pair`, `tractor of two pairs`, `a pair and two singles`.  Equal shapes of a list
are counted together, in the order in which they first come.
-/

namespace TractorRules

def tupleName (copies : Nat) : String :=
  match copies with
  | 1 => "single"
  | 2 => "pair"
  | 3 => "triple"
  | 4 => "quadruple"
  | n => toString n ++ "-tuple"

/-- A number as a word from two to twelve, any other in digits. -/
def numberWord (n : Nat) : String :=
  match n with
  | 2 => "two"
  | 3 => "three"
  | 4 => "four"
  | 5 => "five"
  | 6 => "six"
  | 7 => "seven"
  | 8 => "eight"
  | 9 => "nine"
  | 10 => "ten"
  | 11 => "eleven"
  | 12 => "twelve"
  | n => toString n

def vowelSounds : List String := ["a", "e", "i", "o", "u", "8", "11", "18"]

def article (noun : String) : String :=
  if vowelSounds.any fun sound => sound.toList.isPrefixOf noun.toList then "an" else "a"

def UnitShape.describe (s : UnitShape) : String :=
  if s.groups = 1 then tupleName s.copies
  else "tractor of " ++ numberWord s.groups ++ " " ++ tupleName s.copies ++ "s"

def UnitShape.describePlural (s : UnitShape) : String :=
  if s.groups = 1 then tupleName s.copies ++ "s"
  else "tractors of " ++ numberWord s.groups ++ " " ++ tupleName s.copies ++ "s"

def UnitShape.describeCount (s : UnitShape) (n : Nat) : String :=
  if n = 1 then article s.describe ++ " " ++ s.describe
  else numberWord n ++ " " ++ s.describePlural

def joinParts : List String → String
  | [] => "nothing"
  | [part] => part
  | first :: rest => ", ".intercalate (first :: rest.dropLast) ++ " and " ++ rest.getLastD ""

def Shape.describe (shapes : Shape) : String :=
  joinParts ((Counts.ofList shapes).map fun (s, n) => s.describeCount n)

def Grouping.describe (g : Grouping) : String := Shape.describe (g.map TrickUnit.shape)

end TractorRules
