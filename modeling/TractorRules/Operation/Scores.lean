import TractorRules.Operation.Basic
import TractorRules.Wire.Scores

/-!
# Answers about decks and scores

The number of cards in decks, the result of a number of points, the results at all thresholds, and
whether the next one can still be reached.
-/

namespace TractorRules.Answer

open Wire

/-- The number of cards in several decks; the request is the list of decks or holds it. -/
def deckSize (request : Json) : Result Json := do
  let decks := match request with
    | .object fields => field fields "decks"
    | value => value
  return .ofNat (Deck.totalSize (← readDecks decks))

def readScoring (request : Json) : Result (List Deck × ScoringParameters) := do
  let decks ← readDecks (← require request "decks")
  return (decks, ← readParameters (field (fieldsOf request) "params"))

def ofScoring {α : Type} (result : Except ScoringFault α) : Result α :=
  result.mapError fun fault => .rules (.scoring fault)

def thresholdReachable (request : Json) : Result Json := do
  let (decks, params) ← readScoring request
  let points ← intField (fieldsOf request) "non_landlord_points"
  let observed ← intField (fieldsOf request) "observed_points"
  return .bool (← ofScoring (params.nextThresholdReachable decks points observed))

def scoreTable (request : Json) : Result Json := do
  let (decks, params) ← readScoring request
  let smaller ← boolField (fieldsOf request) "smaller_landlord_team_size"
  let table ← ofScoring (params.explain decks smaller)
  let step ← ofScoring (params.stepSize decks)
  let rows := table.map fun (threshold, score) =>
    Json.record [("point_threshold", .int threshold), ("score_result", writeScore score)]
  return .record [("results", .array rows), ("total_points", .ofNat (Deck.totalPoints decks)),
    ("step_size", .int step)]

def score (request : Json) : Result Json := do
  let (decks, params) ← readScoring request
  let smaller ← boolField (fieldsOf request) "smaller_landlord_team_size"
  let points ← intField (fieldsOf request) "non_landlord_points"
  let result ← ofScoring (params.levelDeltas decks points smaller)
  let next ← ofScoring (params.nextRelevantScore decks points smaller)
  return .record [("score_result", writeScore result), ("next_threshold", .int next)]

end TractorRules.Answer
