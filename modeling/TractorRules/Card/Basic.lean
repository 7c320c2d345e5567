/-!
# Cards

A card is of a suit and a rank, or it is a joker.  Ranks are the numbers 2 to 14, where 11 to 14 are
the jack, queen, king and ace.  Cards have no order of their own.
-/

namespace TractorRules

inductive Suit where
  | clubs
  | diamonds
  | spades
  | hearts
deriving DecidableEq, Repr

namespace Suit

def all : List Suit := [.clubs, .diamonds, .spades, .hearts]

def index : Suit → Nat
  | .clubs => 0
  | .diamonds => 1
  | .spades => 2
  | .hearts => 3

theorem index_lt (s : Suit) : s.index < 4 := by cases s <;> decide

end Suit

inductive Joker where
  | small
  | big
deriving DecidableEq, Repr

namespace Joker

def index : Joker → Nat
  | .small => 0
  | .big => 1

end Joker

/-- The number of a card, from the two to the ace. -/
structure Rank where
  number : Nat
  two_le : 2 ≤ number := by omega
  le_ace : number ≤ 14 := by omega
deriving DecidableEq, Repr

namespace Rank

def two : Rank := ⟨2, by omega, by omega⟩

def ofInt? (n : Int) : Option Rank :=
  if h : 2 ≤ n ∧ n ≤ 14 then some ⟨n.toNat, by omega, by omega⟩ else none

/-- The point value of a rank: a five counts five, a ten or king counts ten. -/
def points (r : Rank) : Nat :=
  match r.number with
  | 5 => 5
  | 10 => 10
  | 13 => 10
  | _ => 0

end Rank

inductive Card where
  | suited (suit : Suit) (rank : Rank)
  | joker (joker : Joker)
deriving DecidableEq, Repr

namespace Card

def suit? : Card → Option Suit
  | .suited s _ => some s
  | .joker _ => none

def rank? : Card → Option Rank
  | .suited _ r => some r
  | .joker _ => none

def joker? : Card → Option Joker
  | .suited _ _ => none
  | .joker j => some j

def isJoker (c : Card) : Bool := c.joker?.isSome

def points : Card → Nat
  | .suited _ r => r.points
  | .joker _ => 0

def index : Card → Fin 54
  | .suited s r => ⟨13 * s.index + (r.number - 2), by
      have := s.index_lt
      have := r.le_ace
      omega⟩
  | .joker .small => 52
  | .joker .big => 53

theorem index_injective {a b : Card} (h : a.index = b.index) : a = b := by
  have val := congrArg Fin.val h
  match a, b with
  | .suited s ⟨m, hm, hm'⟩, .suited t ⟨n, hn, hn'⟩ =>
    simp only [index] at val
    have hs : s.index = t.index := by omega
    have hst : s = t := by cases s <;> cases t <;> simp_all [Suit.index]
    have hr : m = n := by omega
    subst hst hr
    rfl
  | .suited s ⟨m, hm, hm'⟩, .joker .small =>
    have := s.index_lt
    simp only [index] at val
    omega
  | .suited s ⟨m, hm, hm'⟩, .joker .big =>
    have := s.index_lt
    simp only [index] at val
    omega
  | .joker .small, .suited s ⟨m, hm, hm'⟩ =>
    have := s.index_lt
    simp only [index] at val
    omega
  | .joker .big, .suited s ⟨m, hm, hm'⟩ =>
    have := s.index_lt
    simp only [index] at val
    omega
  | .joker .small, .joker .small => rfl
  | .joker .big, .joker .big => rfl
  | .joker .small, .joker .big => exact absurd h (by decide)
  | .joker .big, .joker .small => exact absurd h (by decide)

end Card

end TractorRules
