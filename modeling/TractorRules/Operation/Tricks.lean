import TractorRules.Operation.Basic
import TractorRules.Wire.Table

/-!
# Answers about plays, tricks and bids

Groupings of cards, weaker formats with an example each, whether cards can be played, cards sorted by
effective suit, and the bids that a player may make.
-/

namespace TractorRules.Answer

open Wire

def readDrawPolicy (request : Json) : Result DrawPolicy :=
  readMemberOr (field (fieldsOf request) "trick_draw_policy") .noProtections

def writeGrouping (g : Grouping) : Json :=
  .record [("grouping", .array (g.map writeUnit)), ("description", .ofString g.describe)]

def viablePlays (request : Json) : Result Json := do
  let trump ← readTrump (← require request "trump")
  let requirements ← readRequirements (field (fieldsOf request) "tractor_requirements")
  let cards ← readCards (← require request "cards") "cards"
  return writeResults ((groupings trump requirements cards (some maxGroupings)).map writeGrouping)

/-- A shape with its words and an example of how the cards can play it. -/
def writeRow (f : TrickFormat) (held : List Card) (policy : DrawPolicy) (shape : Shape) : Json :=
  let example? := (matchShape f.trump held shape policy (some 1)).head?
  .record [("format", .array (shape.map writeShape)), ("description", .ofString shape.describe),
    ("playable", writeCards ((example?.map Grouping.cards).getD []))]

def formatRows [RowOrder] (request : Json) : Result Json := do
  let f ← readFormat (← require request "trick_format")
  let hands ← readHands (← require request "hands")
  let id ← readPlayerId (← require request "player_id")
  let policy ← readDrawPolicy request
  let hand ← ofRules (hands.cardsOf id)
  let held := hand.filter fun c => f.trump.effectiveSuit c == f.suit
  return writeResults ((f.decomposition policy).map (writeRow f held policy))

/-- Whether a player can play cards; an illegal play or an unknown player is answered with no. -/
def playability [RowOrder] (request : Json) : Reply :=
  let reading : Result (Trick × PlayerId × Hands × List Card × DrawPolicy) := do
    let trick ← readTrick (← require request "trick")
    let id ← readPlayerId (← require request "player_id")
    let hands ← readHands (← require request "hands")
    let cards ← readCards (← require request "cards") "cards"
    return (trick, id, hands, cards, ← readDrawPolicy request)
  let answer (playable : Bool) : Json := .record [("playable", .bool playable)]
  match reading with
  | .error fault => { result := .error fault }
  | .ok (trick, id, hands, cards, policy) =>
    match trick.canPlay id hands cards policy with
    | .ok () => { result := .ok (answer true) }
    | .error fault =>
      match fault with
      | .play _ | .unknownPlayer _ =>
        { notes := [.playRejected id fault], result := .ok (answer false) }
      | _ => { result := .error (.rules fault) }

def suitGroups (request : Json) : Result Json := do
  let trump ← readTrump (← require request "trump")
  let cards ← readCards (← require request "cards") "cards"
  return writeResults ((trump.groupBySuit cards).map writeSuitGroup)

/-! ### Bids -/

def readValidBids (request : Json) : Result (List Bid) := do
  let fields := fieldsOf request
  let id ← readPlayerId (← require request "player_id")
  let history ← readBids (orEmptyList (field fields "bid_history"))
  let hands ← readHands (← require request "hands")
  let players ← readPlayers (← require request "players")
  let landlord ← optional (field fields "landlord") readPlayerId
  let epoch ← intFieldOr fields "epoch" 0
  let bidPolicy ← readMemberOr (field fields "bid_policy") BidPolicy.jokerOrGreaterLength
  let reinforcement ← readMemberOr (field fields "reinforcement_policy")
    BidReinforcementPolicy.reinforceWhileWinning
  let jokerPolicy ← readMemberOr (field fields "joker_bid_policy") JokerBidPolicy.bothTwoOrMore
  let decks ← intFieldOr fields "num_decks" 2
  let auction : Auction :=
    { hands, players, landlord, bidPolicy, reinforcement, jokerPolicy, decks }
  ofRules (auction.validBids history id epoch)

/-- The bids that a player may make; a refusal is answered with none. -/
def validBids (request : Json) : Reply :=
  match readValidBids request with
  | .ok bids => { result := .ok (writeResults (bids.map writeBid)) }
  | .error (.rules fault) => { notes := [.noBids fault], result := .ok (writeResults []) }
  | .error fault => { result := .error fault }

end TractorRules.Answer
