import TractorRules.Wire.Units
import TractorRules.Trick
import TractorRules.Bidding

/-!
# Players, hands, tricks and bids on the wire

Hands are an object from player numbers to hands; a hand is an object from cards to counts, or a
list of cards.  A bid is an object with the player, the card, the count and the epoch, which is zero if
it is left out.
-/

namespace TractorRules.Wire

/-! ### Numbers of players -/

/-- Reads an integer, which may be given as a text of digits. -/
def readIntegerKey (value : Json) (what : String) : Result Int :=
  match value with
  | .text t => if t.trim.isDigits then ofValue t.readInteger else asInt value what
  | value => asInt value what

def readPlayerId (value : Json) : Result PlayerId := readIntegerKey value "player id"

/-! ### Hands and players -/

def readCardCount (label : Text) (count : Json) : Result (Card × Nat) := do
  let n ← asInt count ("count of " ++ label.quoted)
  if n < 0 then refuse (.negativeCount label)
  else return (← readCard (.text label), n.toNat)

def readHand (id : PlayerId) (value : Json) : Result Hand :=
  match value with
  | .object fields => do
    return Hand.ofCounts (← fields.mapM fun (label, count) => readCardCount label count)
  | value => do
    return Hand.ofCards (← readCards value ("hand of player " ++ toString id))

def readHands (value : Json) : Result Hands := do
  let entries ← (← asObject value "hands").mapM fun (key, hand) => do
    let id ← readPlayerId (.text key)
    return (id, ← readHand id hand)
  return Hands.ofList entries

def readPlayer (value : Json) : Result Player := do
  let fields ← asObject value "player"
  Result.naming (RequestFault.player value) do
    let id ← readPlayerId (← requireField fields "id" "player")
    let name := field fields "name"
    let level ← optional (field fields "level") fun v => ofValue (Rank.read v)
    return ⟨id, if name.isVoid then ⟨[]⟩ else name.plainText, level⟩

def readPlayers (value : Json) : Result (List Player) := do
  (← asList value "players").mapM readPlayer

/-! ### Tricks -/

def readPlayedCards (value : Json) : Result PlayedCards := do
  let place := "played_cards entry"
  let fields ← asObject value place
  let id ← readPlayerId (← requireField fields "id" place)
  let cards ← readCards (← requireField fields "cards" place) "cards"
  return ⟨id, cards⟩

def readTrick (value : Json) : Result Trick := do
  let fields ← asObject value "trick"
  let played ← (← asList (orEmptyList (field fields "played_cards")) "played_cards").mapM
    readPlayedCards
  let trump ← readTrump (field fields "trump")
  let queue ← (← asList (← requireField fields "player_queue" "trick") "player_queue").mapM
    readPlayerId
  let format ← optional (field fields "trick_format") readFormat
  let requirements ← readRequirements (field fields "tractor_requirements")
  return ⟨trump, queue, played, format, requirements⟩

/-! ### Bids -/

def readBid (value : Json) : Result Bid := do
  let fields ← asObject value "bid"
  let id ← readPlayerId (← requireField fields "id" "bid")
  let card ← readCard (← requireField fields "card" "bid")
  let count ← intField fields "count"
  let epoch ← intFieldOr fields "epoch" 0
  return ⟨id, card, count, epoch⟩

def readBids (value : Json) : Result (List Bid) := do
  (← asList value "bid_history").mapM readBid

def writeBid (b : Bid) : Json :=
  .record [("id", .int b.id), ("card", writeCard b.card), ("count", .int b.count),
    ("epoch", .int b.epoch)]

end TractorRules.Wire
