import TractorRules.Fault.Value

/-!
# Trick units

A play is made of units: copies of one card, or a tractor, which is the same number of copies of each
of two or more cards up the ladder.
-/

namespace TractorRules

/-- What counts as a tractor: the fewest copies of each card, and the fewest cards. -/
@[ext]
structure TractorRequirements where
  minCount : Nat := 2
  minLength : Nat := 2
  two_le_minCount : 2 ≤ minCount := by omega
  two_le_minLength : 2 ≤ minLength := by omega
deriving Repr

namespace TractorRequirements

instance : DecidableEq TractorRequirements := fun a b =>
  decidable_of_iff (a.minCount = b.minCount ∧ a.minLength = b.minLength) TractorRequirements.ext_iff.symm

theorem two_le_two : 2 ≤ 2 := Nat.le_refl 2

/-- Pairs and more, two in a row and more. -/
def standard : TractorRequirements := ⟨2, 2, two_le_two, two_le_two⟩

def ofInts (minCount minLength : Int) : Except ValueFault TractorRequirements :=
  if hc : minCount < 2 then .error (.tractorMinCount minCount)
  else if hl : minLength < 2 then .error (.tractorMinLength minLength)
  else .ok ⟨minCount.toNat, minLength.toNat, by omega, by omega⟩

end TractorRequirements

structure Repeated where
  card : Card
  count : Nat
  count_pos : 0 < count := by omega
deriving DecidableEq, Repr

namespace Repeated

def ofInt (card : Card) (count : Int) : Except ValueFault Repeated :=
  if h : count < 1 then .error (.unitCount count) else .ok ⟨card, count.toNat, by omega⟩

def ofNat? (card : Card) (count : Nat) : Option Repeated :=
  if h : 0 < count then some ⟨card, count, h⟩ else none

def cards (r : Repeated) : List Card := List.replicate r.count r.card

end Repeated

/-- The same number of copies of several cards, listed up the ladder. -/
structure Tractor where
  count : Nat
  members : List Card
  count_pos : 0 < count := by omega
  two_le_length : 2 ≤ members.length := by omega
deriving DecidableEq, Repr

namespace Tractor

def ofInt (count : Int) (members : List Card) : Except ValueFault Tractor :=
  if hc : count < 1 then .error (.unitCount count)
  else if hm : members.length < 2 then .error .tractorMembers
  else .ok ⟨count.toNat, members, by omega, by omega⟩

def ofNat? (count : Nat) (members : List Card) : Option Tractor :=
  if h : 0 < count ∧ 2 ≤ members.length then some ⟨count, members, h.1, h.2⟩ else none

theorem length_pos (t : Tractor) : 0 < t.members.length := by
  have := t.two_le_length
  omega

def cards (t : Tractor) : List Card := t.members.flatMap (List.replicate t.count)

end Tractor

inductive TrickUnit where
  | repeated (unit : Repeated)
  | tractor (unit : Tractor)
deriving DecidableEq, Repr

namespace TrickUnit

def count : TrickUnit → Nat
  | .repeated r => r.count
  | .tractor t => t.count

/-- The distinct cards of a unit, in order. -/
def members : TrickUnit → List Card
  | .repeated r => [r.card]
  | .tractor t => t.members

def size (u : TrickUnit) : Nat := u.count * u.members.length

def cards : TrickUnit → List Card
  | .repeated r => r.cards
  | .tractor t => t.cards

end TrickUnit

abbrev Grouping := List TrickUnit

def Grouping.cards (g : Grouping) : List Card := g.flatMap TrickUnit.cards

end TractorRules
