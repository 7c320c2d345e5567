import TractorRules.TrickUnit.Basic

/-!
# Shapes of units

The shape of a unit is what remains without its cards: the number of copies in each of its adjacent
groups, which is the same in all of them.  A shape is written as the list of those numbers.
-/

namespace TractorRules

/-- The shape of a unit: `groups` adjacent groups of `copies` cards each. -/
@[ext]
structure UnitShape where
  copies : Nat
  groups : Nat
  copies_pos : 0 < copies := by omega
  groups_pos : 0 < groups := by omega
deriving Hashable, Repr

namespace UnitShape

instance : DecidableEq UnitShape := fun a b =>
  decidable_of_iff (a.copies = b.copies ∧ a.groups = b.groups) UnitShape.ext_iff.symm

def single : UnitShape := ⟨1, 1, Nat.one_pos, Nat.one_pos⟩

def tuples (s : UnitShape) : List Nat := List.replicate s.groups s.copies

def size (s : UnitShape) : Nat := s.copies * s.groups

/-- The shape with the given numbers of copies, which must be positive and all the same. -/
def ofTuples (tuples : List Int) : Except ValueFault UnitShape :=
  match tuples with
  | [] => .error (.emptyShape tuples)
  | n :: rest =>
    if (n :: rest).any (· < 1) then .error (.emptyShape tuples)
    else if h : 1 ≤ n ∧ rest.all (· == n) then
      .ok ⟨n.toNat, rest.length + 1, by omega, by omega⟩
    else .error (.mixedShape tuples)

end UnitShape

def TrickUnit.shape : TrickUnit → UnitShape
  | .repeated r => ⟨r.count, 1, r.count_pos, Nat.one_pos⟩
  | .tractor t => ⟨t.count, t.members.length, t.count_pos, t.length_pos⟩

abbrev Shape := List UnitShape

def Shape.size (s : Shape) : Nat := (s.map UnitShape.size).foldr (· + ·) 0

end TractorRules
