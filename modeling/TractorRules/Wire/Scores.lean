import TractorRules.Wire.Table

/-!
# Decks and scores on the wire

A deck is an object that may leave out jokers and low cards.  Scoring parameters may leave out any
field, but have no others.
-/

namespace TractorRules.Wire

/-! ### Decks -/

/-- Reads a deck; null is a whole one. -/
def readDeck (value : Json) : Result Deck := do
  let value := match value with
    | .null => .object []
    | value => value
  let fields ← asObject value "deck"
  Result.naming (RequestFault.deck value) do
    let withoutSmall ← boolField fields "exclude_small_joker"
    let withoutBig ← boolField fields "exclude_big_joker"
    let minimum ← optional (field fields "min") fun v => ofValue (Rank.read v)
    return ⟨withoutSmall, withoutBig, minimum.getD .two⟩

def readDecks (value : Json) : Result (List Deck) := do
  (← asList value "decks").mapM readDeck

/-! ### Parameters and results -/

def parameterFields : List String := ["step_size_per_deck", "num_steps_to_non_landlord_turnover",
  "deadzone_size", "step_adjustments", "bonus_level_policy"]

/-- Reads the adjustments of the step by number of decks; the last one for a number counts. -/
def readAdjustments (value : Json) : Result (Entries Int Int) := do
  let pairs ← (← asObject (orEmptyObject value) "step_adjustments").mapM fun (key, adjustment) => do
    let decks ← readIntegerKey (.text key) "step_adjustments key"
    return (decks, ← asInt adjustment ("step_adjustments[" ++ key.quoted ++ "]"))
  return Entries.ofList pairs

/-- Reads scoring parameters; null is the usual ones. -/
def readParameters (value : Json) : Result ScoringParameters :=
  match value with
  | .null => .ok {}
  | value => do
    let fields ← asObject value "params"
    let unknown := (fields.map Prod.fst).filter fun key =>
      !parameterFields.any fun name => Text.ofString name == key
    if !unknown.isEmpty then
      refuse (.unknownParameters (unknown.mergeSort Text.precedesOrEquals))
    else
      let adjustments ← readAdjustments (field fields "step_adjustments")
      let stepPerDeck ← intFieldOr fields "step_size_per_deck" 20
      let turnoverSteps ← intFieldOr fields "num_steps_to_non_landlord_turnover" 2
      let deadzone ← intFieldOr fields "deadzone_size" 1
      let bonus ← readMemberOr (field fields "bonus_level_policy")
        BonusLevelPolicy.bonusLevelForSmallerLandlordTeam
      (ofValue (ScoringParameters.ofInts stepPerDeck turnoverSteps deadzone adjustments
        bonus)).naming .parameters

def writeScore (r : ScoreResult) : Json :=
  .record [("landlord_won", .bool r.landlordWon), ("landlord_delta", .int r.landlordDelta),
    ("non_landlord_delta", .int r.opponentDelta), ("landlord_bonus", .bool r.landlordBonus)]

end TractorRules.Wire
