import TractorRules.Hands

/-!
# Trump bidding

A bid shows copies of one card: a card of the bid level, or a joker.  Only the bids of the current
epoch compete, and the latest of them is the bid to beat.  Three policies say how a bid beats
another, what the winner and an overbid player may still do, and how many jokers a bid takes.
-/

namespace TractorRules

/-! ### Policies -/

/-- How a bid of as many cards beats another; more cards always do. -/
inductive BidPolicy where
  | jokerOrGreaterLength
  | greaterLength
  | jokerOrHigherSuit
deriving DecidableEq, Repr

/-- What the current winner, or a player who was overbid, may still do. -/
inductive BidReinforcementPolicy where
  | reinforceWhileWinning
  | overturnOrReinforceWhileWinning
  | reinforceWhileEquivalent
deriving DecidableEq, Repr

inductive JokerBidPolicy where
  | bothTwoOrMore
  | bothNumDecks
  | smallNumDecksBigOneLess
  | disabled
deriving DecidableEq, Repr

/-! ### Bids -/

structure Bid where
  id : PlayerId
  card : Card
  count : Int
  epoch : Int
deriving DecidableEq, Repr

/-- The order of bid cards: the suits, then the small and the big joker. -/
def Card.bidRank : Card → Nat
  | .suited s _ => s.index
  | .joker j => 4 + j.index

def Bid.isDominatedBy (best : Bid) (card : Card) (count : Nat) (policy : BidPolicy) : Bool :=
  if best.count < count then true
  else if (count : Int) < best.count then false
  else match policy with
    | .greaterLength => false
    | .jokerOrGreaterLength => card.isJoker && best.card.bidRank < card.bidRank
    | .jokerOrHigherSuit => best.card.bidRank < card.bidRank

def numbersBetween (low high : Nat) : List Nat := List.range' low (high + 1 - low)

/-- The numbers of jokers that may be bid by a player who holds so many. -/
def JokerBidPolicy.counts (policy : JokerBidPolicy) (joker : Joker) (held decks : Nat) :
    List Nat :=
  match policy, joker with
  | .bothTwoOrMore, _ => numbersBetween 2 held
  | .bothNumDecks, _ => numbersBetween decks (min held decks)
  | .smallNumDecksBigOneLess, .small => numbersBetween decks (min held decks)
  | .smallNumDecksBigOneLess, .big => numbersBetween (max (decks - 1) 1) held
  | .disabled, _ => []

/-! ### Valid bids -/

/-- What stays the same while players bid. -/
structure Auction where
  hands : Hands
  players : List Player
  landlord : Option PlayerId
  bidPolicy : BidPolicy := .jokerOrGreaterLength
  reinforcement : BidReinforcementPolicy := .reinforceWhileWinning
  jokerPolicy : JokerBidPolicy := .bothTwoOrMore
  decks : Int := 2

namespace Auction

def candidates (a : Auction) (hand : Hand) (level : Option Rank) : List (Card × Nat) :=
  hand.entries.flatMap fun (card, held) =>
    match card with
    | .joker j => (a.jokerPolicy.counts j held a.decks.toNat).map fun n => (card, n)
    | .suited _ r =>
      if level = some r then (numbersBetween 1 held).map fun n => (card, n) else []

/-- Whether a player may bid copies of a card, given the bids of the epoch. -/
def mayBid (a : Auction) (current : List Bid) (id : PlayerId) (card : Card) (count : Nat) : Bool :=
  match current.getLast? with
  | none => true
  | some best =>
    if best.id = id then
      (card == best.card && best.count < count)
        || (a.reinforcement == .overturnOrReinforceWhileWinning && card != best.card
          && best.isDominatedBy card count a.bidPolicy)
    else
      best.isDominatedBy card count a.bidPolicy
        || (a.reinforcement == .reinforceWhileEquivalent
          && match (current.filter (·.id == id)).getLast? with
            | none => false
            | some own => card == own.card && own.count < count && best.count ≤ count)

def offerLe (x y : Card × Nat) : Bool :=
  x.2 < y.2 || x.2 == y.2 && x.1.bidRank ≤ y.1.bidRank

/-- The bids that a player may make in an epoch after a history, lowest first.  The bid level is that
of the landlord, if there is one, else the player's own. -/
def validBids (a : Auction) (history : List Bid) (id : PlayerId) (epoch : Int) :
    Except RulesFault (List Bid) := do
  if a.decks < 1 then throw (.deckCount a.decks)
  let bidder ← findPlayer a.players (a.landlord.getD id)
  let hand ← a.hands.get id
  let current := history.filter (·.epoch == epoch)
  let offers := (a.candidates hand bidder.level).filter fun (card, n) =>
    a.mayBid current id card n
  return (offers.mergeSort offerLe).map fun (card, n) => ⟨id, card, n, epoch⟩

end Auction

end TractorRules
