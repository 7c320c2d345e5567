import TractorRules.Trump.Order
import TractorRules.TrickUnit.Basic

/-!
# Runs

A run is a list of cards of one effective suit that stand on consecutive rungs, going up by one.
Runs are read off a sorted list of distinct cards: the next card of a run always comes later in it.
-/

namespace TractorRules

namespace Trump

/-- The longer runs that a run can be continued to with later cards, each before its own
continuations.  The run is held with its last card first. -/
def climbs (t : Trump) (usable : Card → Bool) (last : Card) (below : List Card) :
    List Card → List (List Card)
  | [] => []
  | c :: rest =>
    (if t.isAdjacent last c && usable c then
      (c :: last :: below).reverse :: climbs t usable c (last :: below) rest
    else []) ++ climbs t usable last below rest

/-- The ways to climb a number of rungs above a card with later cards. -/
def ascents (t : Trump) (usable : Card → Bool) : Nat → Card → List Card → List (List Card)
  | 0, _, _ => [[]]
  | _ + 1, _, [] => []
  | n + 1, last, c :: rest =>
    (if t.isAdjacent last c && usable c then (ascents t usable n c rest).map (c :: ·) else [])
      ++ ascents t usable (n + 1) last rest

/-- The runs of a length that start at one of the cards and climb through later ones. -/
def runsOfLength (t : Trump) (usable : Card → Bool) (length : Nat) : List Card → List (List Card)
  | [] => []
  | c :: rest =>
    (if usable c then (ascents t usable (length - 1) c rest).map (c :: ·) else [])
      ++ runsOfLength t usable length rest

end Trump

end TractorRules
