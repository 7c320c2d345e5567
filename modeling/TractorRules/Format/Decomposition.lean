import TractorRules.Format.Basic
import Std.Data.HashSet

/-!
# Decomposition of a format

A shape is weakened by splitting one tractor in two, by lowering one tractor by one copy of each card
with the removed cards as singles, or by lowering one tuple with one single.  The decomposition of a
format is the format itself and every weaker shape, the most preferred first: higher multiplicities,
then fewer units, then longer units.  The order of shapes that tie is left open.
-/

namespace TractorRules

/-! ### Weakening -/

/-- The parts that one unit can be replaced by to make a shape one step weaker. -/
def UnitShape.weakenings (u : UnitShape) : List Shape :=
  if 1 < u.groups then
    (List.range (u.groups - 1)).filterMap (fun k =>
      if h : k + 1 < u.groups then
        some [⟨u.copies, k + 1, u.copies_pos, by omega⟩,
          ⟨u.copies, u.groups - (k + 1), u.copies_pos, by omega⟩]
      else none)
    ++ [if h : 3 ≤ u.copies then
        ⟨u.copies - 1, u.groups, by omega, u.groups_pos⟩ :: List.replicate u.groups .single
      else List.replicate u.size .single]
  else if h : 1 < u.copies then [[⟨u.copies - 1, 1, by omega, by omega⟩, .single]]
  else []

namespace Shape

def unitLe (a b : UnitShape) : Bool :=
  b.copies < a.copies || a.copies == b.copies && b.groups ≤ a.groups

def canonical (s : Shape) : Shape := s.mergeSort unitLe

def picks {α : Type} : List α → List (α × List α)
  | [] => []
  | x :: xs => (x, xs) :: (picks xs).map fun (y, ys) => (y, x :: ys)

def reductions (s : Shape) : List Shape :=
  (picks s).flatMap fun (u, rest) => u.weakenings.map fun parts => canonical (rest ++ parts)

def distinct (shapes : List Shape) : List Shape := (Std.HashSet.ofList shapes).toList

/-- The shapes that can be derived from the pending ones, themselves included, level by level.  All
pending shapes have at least `units` units, and a weaker shape has more units than what it was
derived from, so a level is complete when it is reached. -/
def derived : (levels : Nat) → (units : Nat) → (pending : List Shape) → List Shape
  | 0, _, _ => []
  | levels + 1, units, pending =>
    let (level, later) := pending.partition (·.length == units)
    let level := distinct level
    level ++ derived levels (units + 1) (level.flatMap reductions ++ later)

/-! ### Preference -/

/-- What shapes are preferred by: the multiplicities of all groups, the number of units, and the
lengths of the units.  The lexicographically lesser is preferred. -/
def preference (s : Shape) : List (List Int) :=
  let multiplicities := (s.flatMap UnitShape.tuples).mergeSort fun m n => decide (n ≤ m)
  let lengths := (s.map UnitShape.groups).mergeSort fun m n => decide (n ≤ m)
  [multiplicities.map fun n : Nat => -(n : Int), [(s.length : Int)], lengths.map fun n : Nat => -(n : Int)]

end Shape

/-- In which order shapes that tie come: the shapes found from a start are laid out in some order before
they are sorted by preference. -/
class RowOrder where
  arrange : (start : Shape) → (rows : List Shape) → List Shape
  arrange_perm : ∀ start rows, (arrange start rows).Perm rows

namespace Shape

def sortRows [RowOrder] (start : Shape) (rows : List Shape) : List Shape :=
  (((RowOrder.arrange start rows).map fun s => (s.preference, s)).mergeSort fun a b =>
    (compare a.1 b.1).isLE).map Prod.snd

def written (s : Shape) : List (List Int) := s.map fun u => u.tuples.map Int.ofNat

end Shape

namespace RowOrder

/-- Shapes that tie come in the order of their written form. -/
scoped instance byWritten : RowOrder where
  arrange _ rows := rows.mergeSort fun s t => (compare s.written t.written).isLE
  arrange_perm _ rows := List.mergeSort_perm rows _

end RowOrder

/-- The format's own shape and every weaker one, the most preferred first. -/
def TrickFormat.decomposition [RowOrder] (f : TrickFormat) (policy : DrawPolicy) : List Shape :=
  if policy = .noFormatBasedDraw then [List.replicate f.size .single]
  else
    let start := f.units.canonical
    let shapes := Shape.derived (f.size + 1 - start.length) start.length [start]
    f.units :: Shape.sortRows start (shapes.filter (· != start))

end TractorRules
