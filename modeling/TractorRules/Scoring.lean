import TractorRules.Deck
import TractorRules.Entries
import TractorRules.Fault.Rules

/-!
# Scoring

The points that the landlord's opponents captured are measured in steps.  Below the turnover the
landlord's team keeps the deal and climbs a level for each step that the opponents fell short.  From
the turnover on, the opponents take over and climb a level for each further step, after a dead zone
in which nobody moves.
-/

namespace TractorRules

/-- Whether a landlord who plays in the smaller team gets a bonus level. -/
inductive BonusLevelPolicy where
  | noBonusLevel
  | bonusLevelForSmallerLandlordTeam
deriving DecidableEq, Repr

/-- The parameters of scoring.  The step has a share for each deck and an adjustment for the number
of decks. -/
structure ScoringParameters where
  stepPerDeck : Int := 20
  turnoverSteps : Int := 2
  deadzone : Int := 1
  adjustments : Entries Int Int := []
  bonus : BonusLevelPolicy := .bonusLevelForSmallerLandlordTeam
  turnoverSteps_pos : 1 ≤ turnoverSteps := by omega
  deadzone_nonneg : 0 ≤ deadzone := by omega

structure ScoreResult where
  landlordWon : Bool
  landlordDelta : Int
  opponentDelta : Int
  landlordBonus : Bool
deriving DecidableEq, Repr

namespace ScoringParameters

def ofInts (stepPerDeck turnoverSteps deadzone : Int) (adjustments : Entries Int Int)
    (bonus : BonusLevelPolicy) : Except ValueFault ScoringParameters :=
  if ht : turnoverSteps < 1 then .error .turnoverSteps
  else if hd : deadzone < 0 then .error .deadzone
  else .ok ⟨stepPerDeck, turnoverSteps, deadzone, adjustments, bonus, by omega, by omega⟩

/-- Every point total is a multiple of this. -/
def pointUnit : Int := 5

def stepSize (p : ScoringParameters) (decks : List Deck) : Except ScoringFault Int :=
  let count : Int := decks.length
  let step := p.stepPerDeck * count + (p.adjustments.lookup count).getD 0
  if decks.isEmpty then .error .noDecks
  else if step ≤ 0 then .error (.stepNotPositive step)
  else if step % pointUnit ≠ 0 then .error (.stepNotMultiple step)
  else .ok step

/-- The result of a number of points, given the step and the points in the decks. -/
def resultAt (p : ScoringParameters) (step total : Int) (smaller : Bool) (points : Int) :
    ScoreResult :=
  let points := min (max points 0) total
  let turnover := p.turnoverSteps * step
  if points < turnover then
    let bonus := smaller && p.bonus == .bonusLevelForSmallerLandlordTeam
    ⟨true, p.turnoverSteps - points / step + (if bonus then 1 else 0), 0, bonus⟩
  else
    ⟨false, 0, max 0 ((points - turnover) / step - p.deadzone + 1), false⟩

def thresholds (step total : Int) : List Int :=
  (List.range ((total / step).toNat + 1)).map fun k : Nat => (k : Int) * step

def levelDeltas (p : ScoringParameters) (decks : List Deck) (points : Int) (smaller : Bool) :
    Except ScoringFault ScoreResult := do
  let step ← p.stepSize decks
  return p.resultAt step (Deck.totalPoints decks) smaller points

/-- The result at every multiple of the step up to the points in the decks. -/
def explain (p : ScoringParameters) (decks : List Deck) (smaller : Bool) :
    Except ScoringFault (List (Int × ScoreResult)) := do
  let step ← p.stepSize decks
  let total : Int := Deck.totalPoints decks
  return (thresholds step total).map fun t => (t, p.resultAt step total smaller t)

/-- The first threshold above a number of points with another result. -/
def nextThreshold? (p : ScoringParameters) (decks : List Deck) (points : Int) (smaller : Bool) :
    Except ScoringFault (Option Int) := do
  let current ← p.levelDeltas decks points smaller
  let table ← p.explain decks smaller
  return (table.find? fun row => points < row.1 && row.2 != current).map Prod.fst

/-- The least number of points above the given one that changes the result, or the last threshold if
there is none. -/
def nextRelevantScore (p : ScoringParameters) (decks : List Deck) (points : Int)
    (smaller : Bool) : Except ScoringFault Int := do
  match ← p.nextThreshold? decks points smaller with
  | some threshold => return threshold
  | none => return ((← p.explain decks smaller).getLast?.map Prod.fst).getD 0

/-- Whether the opponents can still reach the next threshold, given the points seen so far. -/
def nextThresholdReachable (p : ScoringParameters) (decks : List Deck) (points observed : Int) :
    Except ScoringFault Bool := do
  match ← p.nextThreshold? decks points false with
  | some threshold => return threshold ≤ points + (Deck.totalPoints decks - observed)
  | none => return false

end ScoringParameters

end TractorRules
