import TractorRules.Wire.Field

/-!
# Operations

The nine operations that requests can ask for, and what an answer consists of.  Two operations answer
a refusal in the response: whether cards can be played, and which bids are valid.  What they hold
back is noted beside the answer.
-/

namespace TractorRules

open Wire

inductive Operation where
  | findViablePlays
  | decomposeTrickFormat
  | canPlayCards
  | findValidBids
  | sortAndGroupCards
  | nextThresholdReachable
  | explainScoring
  | computeDeckLen
  | computeScore
deriving DecidableEq, Repr

inductive Note where
  /-- A play that was answered to be impossible, and why. -/
  | playRejected (id : PlayerId) (fault : RulesFault)
  /-- Bids that were answered to be none, and why. -/
  | noBids (fault : RulesFault)
  | refused (operation : Operation) (fault : RulesFault)

structure Reply where
  notes : List Note := []
  result : Result Json

namespace Operation

def all : List Operation := [.findViablePlays, .decomposeTrickFormat, .canPlayCards,
  .findValidBids, .sortAndGroupCards, .nextThresholdReachable, .explainScoring, .computeDeckLen,
  .computeScore]

def name : Operation → String
  | .findViablePlays => "find_viable_plays"
  | .decomposeTrickFormat => "decompose_trick_format"
  | .canPlayCards => "can_play_cards"
  | .findValidBids => "find_valid_bids"
  | .sortAndGroupCards => "sort_and_group_cards"
  | .nextThresholdReachable => "next_threshold_reachable"
  | .explainScoring => "explain_scoring"
  | .computeDeckLen => "compute_deck_len"
  | .computeScore => "compute_score"

def ofName? (name : Text) : Option Operation := all.find? fun op => Text.ofString op.name == name

end Operation

def Wire.writeResults (rows : List Json) : Json := .record [("results", .array rows)]

end TractorRules
