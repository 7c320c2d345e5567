import TractorRules.Fault.Request

/-!
# Faults against the rules

Everything that a request can be refused for.  A fault of a value may also stand on its own: where no
field is there to name it.
-/

namespace TractorRules

abbrev PlayerId := Int

inductive PlayFault where
  | trickComplete
  | notYourTurn
  | noCards
  | cardsNotInHand
  | mixedSuits
  | wrongNumberOfCards (expected got : Nat)
  | wrongSuit
  | wrongShape
deriving DecidableEq, Repr

namespace PlayFault

def reason : PlayFault → String
  | .trickComplete => "TRICK_COMPLETE"
  | .notYourTurn => "NOT_YOUR_TURN"
  | .noCards => "NO_CARDS"
  | .cardsNotInHand => "CARDS_NOT_IN_HAND"
  | .mixedSuits => "MIXED_SUITS"
  | .wrongNumberOfCards _ _ => "WRONG_NUMBER_OF_CARDS"
  | .wrongSuit => "WRONG_SUIT"
  | .wrongShape => "WRONG_SHAPE"

def message : PlayFault → String
  | .trickComplete => "The trick is already complete"
  | .notYourTurn => "It is not this player's turn"
  | .noCards => "No cards were played"
  | .cardsNotInHand => "The cards are not in the player's hand"
  | .mixedSuits => "A lead must be of a single suit"
  | .wrongNumberOfCards expected got =>
    "Expected " ++ toString expected ++ " cards, got " ++ toString got
  | .wrongSuit => "Cards of the led suit must be played first"
  | .wrongShape => "The cards do not match the required format"

end PlayFault

inductive ScoringFault where
  | noDecks
  | stepNotPositive (step : Int)
  | stepNotMultiple (step : Int)
deriving DecidableEq, Repr

def ScoringFault.message : ScoringFault → String
  | .noDecks => "Scoring needs at least one deck"
  | .stepNotPositive step => "Step size must be positive, got " ++ toString step
  | .stepNotMultiple step => "Step size must be a multiple of 5, got " ++ toString step

inductive RulesFault where
  | request (fault : RequestFault)
  | unknownPlayer (id : PlayerId)
  | play (fault : PlayFault)
  | scoring (fault : ScoringFault)
  | emptyLead
  | mixedLead
  | deckCount (count : Int)

def RulesFault.message : RulesFault → String
  | .request fault => fault.message
  | .unknownPlayer id => "Unknown player: " ++ toString id
  | .play fault => fault.message
  | .scoring fault => fault.message
  | .emptyLead => "A lead needs at least one card"
  | .mixedLead => "A lead must be a single effective suit"
  | .deckCount count => "num_decks must be positive, got " ++ toString count

/-- A refusal by the rules, or the fault of a value that no field names. -/
inductive Fault where
  | rules (fault : RulesFault)
  | value (fault : ValueFault)

namespace Fault

def message : Fault → String
  | .rules fault => fault.message
  | .value fault => fault.message

def request (fault : RequestFault) : Fault := .rules (.request fault)

end Fault

end TractorRules
