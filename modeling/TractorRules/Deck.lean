import TractorRules.Card.Basic
import TractorRules.Fault.Value

/-!
# Decks

A deck has the four suits from a least rank up, and the two jokers unless they are left out.
-/

namespace TractorRules

structure Deck where
  withoutSmallJoker : Bool := false
  withoutBigJoker : Bool := false
  minimum : Rank := .two
deriving DecidableEq, Repr

namespace Deck

def ofMinimum (withoutSmallJoker withoutBigJoker : Bool) (minimum : Int) :
    Except ValueFault Deck :=
  match Rank.ofInt? minimum with
  | some r => .ok ⟨withoutSmallJoker, withoutBigJoker, r⟩
  | none => .error (.deckMinimumRange minimum)

def ranks (d : Deck) : List Rank :=
  (List.range' d.minimum.number (15 - d.minimum.number)).filterMap fun n : Nat => Rank.ofInt? n

def cards (d : Deck) : List Card :=
  Suit.all.flatMap (fun s => d.ranks.map (.suited s))
    ++ (if d.withoutSmallJoker then [] else [.joker .small])
    ++ (if d.withoutBigJoker then [] else [.joker .big])

def size (d : Deck) : Nat :=
  4 * (15 - d.minimum.number) + (if d.withoutSmallJoker then 0 else 1)
    + (if d.withoutBigJoker then 0 else 1)

def points (d : Deck) : Nat := (d.cards.map Card.points).foldr (· + ·) 0

def totalSize (decks : List Deck) : Nat := (decks.map size).foldr (· + ·) 0

def totalPoints (decks : List Deck) : Nat := (decks.map points).foldr (· + ·) 0

end Deck

end TractorRules
