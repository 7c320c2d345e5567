import TractorRules.Wire.Field
import TractorRules.Trump.Order

/-!
# Cards and trump on the wire

A card is its notation, or an object with a suit and a number or with a joker.  A trump is an object
with a suit and a number, either of which may be null.
-/

namespace TractorRules.Wire

/-! ### Cards -/

def cardField (fields : Fields) (key : String) : Except ValueFault Json :=
  match Json.lookup key fields with
  | some value => .ok value
  | none => .error (.cardField key)

def readCardFields (fields : Fields) : Except ValueFault Card := do
  match Json.present "joker" fields with
  | some joker => return .joker (← Joker.read joker)
  | none =>
    let suit ← Suit.read (← cardField fields "suit")
    let rank ← Rank.read (← cardField fields "number")
    return .suited suit rank

def readCard (value : Json) : Result Card :=
  match value with
  | .text _ => (ofValue (Card.read value)).naming fun cause => .card value (some cause)
  | .object fields =>
    (ofValue (readCardFields fields)).naming fun cause => .card value (some cause)
  | _ => refuse (.card value none)

def readCards (value : Json) (what : String) : Result (List Card) := do
  (← asList value what).mapM readCard

def writeCard (c : Card) : Json := .ofString c.short

def writeCards (cards : List Card) : Json := .array (cards.map writeCard)

/-! ### Trump -/

/-- Reads a trump; null is no trump. -/
def readTrump (value : Json) : Result Trump :=
  match value with
  | .null => .ok {}
  | value => do
    let fields ← asObject value "trump"
    Result.naming (RequestFault.trump value) do
      let suit ← optional (field fields "suit") fun v => ofValue (Suit.read v)
      let rank ← optional (field fields "number") fun v => ofValue (Rank.read v)
      return ⟨suit, rank⟩

def writeSuitGroup (g : Trump.SuitGroup) : Json :=
  .record [("suit", .ofString g.suit.name), ("cards", writeCards g.cards)]

end TractorRules.Wire
