import TractorRules.Proofs.Scoring.Threshold

/-!
# Gains

Every result moves one side at most, and the landlord's team keeps the deal just when it gains
(`exclusive_resultOf`).  With more steps the results only shift towards the opponents, over the
turnover as well, where the bonus ends and the dead zone begins (`shifts_resultOf`).  In points:
`more_points_shift_result`.
-/

namespace TractorRules

/-- At most one side gains, and the landlord's team does just when it keeps the deal. -/
structure ScoreResult.Exclusive (r : ScoreResult) : Prop where
  landlord_nonneg : 0 ≤ r.landlordDelta
  opponent_nonneg : 0 ≤ r.opponentDelta
  won_iff : r.landlordWon = true ↔ 1 ≤ r.landlordDelta
  not_both : ¬(0 < r.landlordDelta ∧ 0 < r.opponentDelta)

/-- The second result is no better for the landlord's team, and no worse for the opponents. -/
structure ScoreResult.Shifts (r r' : ScoreResult) : Prop where
  lost : r.landlordWon = false → r'.landlordWon = false
  landlord_le : r'.landlordDelta ≤ r.landlordDelta
  opponent_le : r.opponentDelta ≤ r'.opponentDelta

namespace ScoringParameters

variable {p : ScoringParameters} {decks : List Deck} {step total points steps steps' : Int}
  {smaller : Bool}

/-! ### By whole steps -/

def bonusLevels (p : ScoringParameters) (smaller : Bool) : Int :=
  if smaller && p.bonus == .bonusLevelForSmallerLandlordTeam then 1 else 0

theorem bonusLevels_nonneg (p : ScoringParameters) (smaller : Bool) : 0 ≤ p.bonusLevels smaller := by
  unfold bonusLevels
  split <;> omega

theorem landlordWon_resultOf :
    (p.resultOf smaller steps).landlordWon = decide (steps < p.turnoverSteps) := by
  unfold resultOf
  split
  · rename_i hlow
    exact (decide_eq_true hlow).symm
  · rename_i hhigh
    exact (decide_eq_false hhigh).symm

theorem landlordDelta_resultOf :
    (p.resultOf smaller steps).landlordDelta =
      if steps < p.turnoverSteps then p.turnoverSteps - steps + p.bonusLevels smaller else 0 := by
  unfold resultOf
  split <;> rfl

theorem opponentDelta_resultOf :
    (p.resultOf smaller steps).opponentDelta =
      if steps < p.turnoverSteps then 0 else max 0 (steps - p.turnoverSteps - p.deadzone + 1) := by
  unfold resultOf
  split <;> rfl

theorem exclusive_resultOf (p : ScoringParameters) (smaller : Bool) (steps : Int) :
    (p.resultOf smaller steps).Exclusive := by
  have hbonus := p.bonusLevels_nonneg smaller
  constructor
  · rw [landlordDelta_resultOf]
    omega
  · rw [opponentDelta_resultOf]
    omega
  · rw [landlordWon_resultOf, landlordDelta_resultOf, decide_eq_true_eq]
    omega
  · rw [landlordDelta_resultOf, opponentDelta_resultOf]
    omega

theorem shifts_resultOf (h : steps ≤ steps') :
    (p.resultOf smaller steps).Shifts (p.resultOf smaller steps') := by
  have hbonus := p.bonusLevels_nonneg smaller
  constructor
  · rw [landlordWon_resultOf, landlordWon_resultOf, decide_eq_false_iff_not, decide_eq_false_iff_not]
    omega
  · rw [landlordDelta_resultOf, landlordDelta_resultOf]
    omega
  · rw [opponentDelta_resultOf, opponentDelta_resultOf]
    omega

theorem still_resultOf_iff :
    (p.resultOf smaller steps).landlordDelta = 0 ∧ (p.resultOf smaller steps).opponentDelta = 0 ↔
      p.InDeadzone steps := by
  have hbonus := p.bonusLevels_nonneg smaller
  have hdead := p.deadzone_nonneg
  rw [landlordDelta_resultOf, opponentDelta_resultOf, InDeadzone]
  omega

/-! ### By points -/

theorem inDeadzone_wholeSteps_iff (hstep : 0 < step) :
    p.InDeadzone (wholeSteps step total points) ↔
      p.turnoverSteps * step ≤ counted total points ∧
        counted total points < p.turnoverSteps * step + p.deadzone * step := by
  unfold InDeadzone
  rw [wholeSteps_eq_counted, Int.le_ediv_iff_mul_le hstep, Int.ediv_lt_iff_lt_mul hstep, Int.add_mul]

/-- Capturing more points never hurts the opponents, and the result of every number of points moves one
side at most: none exactly in the dead zone, which begins at the turnover. -/
theorem more_points_shift_result (h : p.stepSize decks = .ok step) (smaller : Bool) :
    (∀ points points', points ≤ points' → ∃ result result',
      p.levelDeltas decks points smaller = .ok result ∧
        p.levelDeltas decks points' smaller = .ok result' ∧ result.Shifts result') ∧
    ∀ points, ∃ result, p.levelDeltas decks points smaller = .ok result ∧ result.Exclusive ∧
      (result.landlordDelta = 0 ∧ result.opponentDelta = 0 ↔
        p.turnoverSteps * step ≤ counted (Deck.totalPoints decks) points ∧
          counted (Deck.totalPoints decks) points <
            p.turnoverSteps * step + p.deadzone * step) := by
  have hstep := stepSize_pos h
  constructor
  · intro points points' hle
    have hsteps := @wholeSteps_mono step (Deck.totalPoints decks) points points' hstep hle
    exact ⟨_, _, levelDeltas_eq h, levelDeltas_eq h, shifts_resultOf hsteps⟩
  · intro points
    refine ⟨_, levelDeltas_eq h, exclusive_resultOf p smaller _, ?_⟩
    rw [still_resultOf_iff, inDeadzone_wholeSteps_iff hstep]

/-- With the bonus the landlord's team climbs two levels at 119 points and none at 120; nobody moves at
199, and somebody does at 200. -/
theorem bonus_ends_at_turnover :
    longDeadzone.stepSize [{}, {}] = .ok 40 ∧
      (∃ result result', longDeadzone.levelDeltas [{}, {}] 119 true = .ok result ∧
        longDeadzone.levelDeltas [{}, {}] 120 true = .ok result' ∧ result.Shifts result' ∧
        result.landlordDelta = 2) ∧
      (∃ result, longDeadzone.levelDeltas [{}, {}] 199 true = .ok result ∧
        result.landlordDelta = 0 ∧ result.opponentDelta = 0) ∧
      ∃ result, longDeadzone.levelDeltas [{}, {}] 200 true = .ok result ∧ result.Exclusive ∧
        ¬(result.landlordDelta = 0 ∧ result.opponentDelta = 0) := by
  have hstep : longDeadzone.stepSize [{}, {}] = .ok 40 := by rfl
  obtain ⟨hshift, hall⟩ := more_points_shift_result hstep true
  obtain ⟨result, result', hresult, hresult', hshifts⟩ := hshift 119 120 (by decide)
  obtain ⟨last, hlast, -, hstill⟩ := hall 199
  obtain ⟨next, hnext, hexclusive, hmoves⟩ := hall 200
  have htwo : result.landlordDelta = 2 := by
    rw [← Except.ok.inj hresult]
    rfl
  have hlater : ¬(next.landlordDelta = 0 ∧ next.opponentDelta = 0) := by
    rw [hmoves]
    decide
  exact ⟨hstep, ⟨result, result', hresult, hresult', hshifts, htwo⟩,
    ⟨last, hlast, hstill.mpr (by decide)⟩, next, hnext, hexclusive, hlater⟩

end ScoringParameters

end TractorRules
