import TractorRules.Proofs.Scoring.Step

/-!
# Results by whole steps

Points count only by the whole steps that are in them, within the points of the decks
(`levelDeltas_eq`).  Two numbers of steps have the same result only when they are the same or both lie
in the dead zone, with or without a bonus (`resultOf_eq_iff`).
-/

namespace TractorRules

namespace ScoringParameters

variable {p : ScoringParameters} {decks : List Deck} {step total points points' steps : Int}
  {smaller : Bool}

/-! ### Whole steps -/

/-- The whole steps in a number of points, within a total. -/
def wholeSteps (step total points : Int) : Int := min (max points 0) total / step

/-- The points that count: none below zero and none beyond the total. -/
def counted (total points : Int) : Int := min (max points 0) total

theorem wholeSteps_eq_counted : wholeSteps step total points = counted total points / step := rfl

theorem wholeSteps_mono (hstep : 0 < step) (h : points ≤ points') :
    wholeSteps step total points ≤ wholeSteps step total points' := by
  apply Int.ediv_le_ediv hstep
  omega

theorem wholeSteps_nonneg (hstep : 0 < step) (htotal : 0 ≤ total) :
    0 ≤ wholeSteps step total points := by
  apply Int.ediv_nonneg
  · omega
  · omega

theorem wholeSteps_le (hstep : 0 < step) : wholeSteps step total points ≤ total / step := by
  apply Int.ediv_le_ediv hstep
  omega

theorem wholeSteps_of_nonpos (htotal : 0 ≤ total) (h : points ≤ 0) :
    wholeSteps step total points = 0 := by
  have hnone : min (max points 0) total = 0 := by omega
  rw [wholeSteps, hnone, Int.zero_ediv]

theorem wholeSteps_of_total_le (h : total ≤ points) :
    wholeSteps step total points = total / step := by
  have hall : min (max points 0) total = total := by omega
  rw [wholeSteps, hall]

theorem wholeSteps_mul (hstep : 0 < step) (hpos : 0 ≤ steps) (hle : steps ≤ total / step) :
    wholeSteps step total (steps * step) = steps := by
  have hin : steps * step ≤ total := (Int.le_ediv_iff_mul_le hstep).mp hle
  have hnonneg : 0 ≤ steps * step := Int.mul_nonneg hpos (by omega)
  have hclamp : min (max (steps * step) 0) total = steps * step := by omega
  rw [wholeSteps, hclamp, Int.mul_ediv_cancel _ (by omega)]

theorem wholeSteps_mul_le (hstep : 0 < step) (hpos : 0 < wholeSteps step total points) :
    wholeSteps step total points * step ≤ points := by
  have hle : wholeSteps step total points * step ≤ min (max points 0) total :=
    Int.ediv_mul_le _ (by omega)
  have hmul : 0 < wholeSteps step total points * step := Int.mul_pos hpos hstep
  omega

theorem lt_mul_of_wholeSteps_lt (hstep : 0 < step) (htotal : 0 ≤ total)
    (hlt : wholeSteps step total points < steps) (hle : steps ≤ total / step) :
    points < steps * step := by
  apply Int.not_le.mp
  intro hge
  have hpos : 0 ≤ wholeSteps step total points := wholeSteps_nonneg hstep htotal
  have hmono : wholeSteps step total (steps * step) ≤ wholeSteps step total points :=
    wholeSteps_mono hstep hge
  rw [wholeSteps_mul hstep (by omega) hle] at hmono
  omega

/-! ### The result of a number of steps -/

def resultOf (p : ScoringParameters) (smaller : Bool) (steps : Int) : ScoreResult :=
  if steps < p.turnoverSteps then
    let bonus := smaller && p.bonus == .bonusLevelForSmallerLandlordTeam
    ⟨true, p.turnoverSteps - steps + (if bonus then 1 else 0), 0, bonus⟩
  else ⟨false, 0, max 0 (steps - p.turnoverSteps - p.deadzone + 1), false⟩

theorem resultAt_eq (hstep : 0 < step) :
    p.resultAt step total smaller points = p.resultOf smaller (wholeSteps step total points) := by
  have hturnover : min (max points 0) total < p.turnoverSteps * step ↔
      wholeSteps step total points < p.turnoverSteps := (Int.ediv_lt_iff_lt_mul hstep).symm
  have hbeyond : (min (max points 0) total - p.turnoverSteps * step) / step =
      wholeSteps step total points - p.turnoverSteps := by
    rw [Int.sub_mul_ediv_right _ _ (by omega), wholeSteps]
  unfold resultAt resultOf
  simp only [hturnover, hbeyond]
  rfl

theorem levelDeltas_eq (h : p.stepSize decks = .ok step) :
    p.levelDeltas decks points smaller =
      .ok (p.resultOf smaller (wholeSteps step (Deck.totalPoints decks) points)) := by
  rw [levelDeltas, h, ← resultAt_eq (stepSize_pos h)]
  rfl

/-- The steps from the turnover on at which nobody moves. -/
def InDeadzone (p : ScoringParameters) (steps : Int) : Prop :=
  p.turnoverSteps ≤ steps ∧ steps < p.turnoverSteps + p.deadzone

/-- Every step counts outside the dead zone.  The bonus is the same for all steps below the
turnover, and it makes no difference to which results are the same. -/
theorem resultOf_eq_iff {steps' : Int} :
    p.resultOf smaller steps = p.resultOf smaller steps' ↔
      steps = steps' ∨ p.InDeadzone steps ∧ p.InDeadzone steps' := by
  have hdead := p.deadzone_nonneg
  unfold resultOf InDeadzone
  by_cases hlow : steps < p.turnoverSteps
  · by_cases hlow' : steps' < p.turnoverSteps
    · simp only [if_pos hlow, if_pos hlow', ScoreResult.mk.injEq, true_and, and_true]
      omega
    · simp only [if_pos hlow, if_neg hlow', ScoreResult.mk.injEq, reduceCtorEq, false_and, false_iff]
      omega
  · by_cases hlow' : steps' < p.turnoverSteps
    · simp only [if_neg hlow, if_pos hlow', ScoreResult.mk.injEq, reduceCtorEq, false_and, false_iff]
      omega
    · simp only [if_neg hlow, if_neg hlow', ScoreResult.mk.injEq, true_and, and_true]
      omega

end ScoringParameters

end TractorRules
