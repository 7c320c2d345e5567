import TractorRules.Proofs.Scoring.Threshold
import TractorRules.Proofs.Operation.Reading

/-!
# Answers about thresholds

Whether a threshold can be reached is asked without a bonus, and the score is given with one.  Both
mean the same threshold: it can be reached just when the points that were not seen yet suffice to
change the result (`reachable_iff_change`).
-/

namespace TractorRules

open Wire ScoringParameters

variable {p : ScoringParameters} {decks : List Deck} {step points observed : Int} {smaller : Bool}

theorem exists_reachable_iff {found : Option Int}
    (h : p.nextThreshold? decks points false = .ok found) :
    ∃ reachable, p.nextThresholdReachable decks points observed = .ok reachable ∧
      (reachable = true ↔
        ∃ n, found = some n ∧ n ≤ points + (Deck.totalPoints decks - observed)) := by
  rw [nextThresholdReachable, h]
  cases found with
  | some n =>
    refine ⟨decide (n ≤ points + (Deck.totalPoints decks - observed)), rfl, ?_⟩
    simp
  | none =>
    refine ⟨false, rfl, ?_⟩
    simp

theorem response_score [RowOrder] (h : p.stepSize decks = .ok step) {next : Int}
    (hnext : p.nextRelevantScore decks points smaller = .ok next) :
    ∃ result, p.levelDeltas decks points smaller = .ok result ∧
      (Inputs.score p decks smaller points).response =
        .ok (.record [("score_result", writeScore result), ("next_threshold", .int next)]) := by
  refine ⟨_, levelDeltas_eq h, ?_⟩
  rw [Inputs.response, levelDeltas_eq h, hnext]
  rfl

/-- A threshold can be reached just when some number of points that the opponents can still get to
changes the result, and that is when they can get to the threshold that comes with the score.  None of
it depends on the bonus. -/
theorem reachable_iff_change [RowOrder] (h : p.stepSize decks = .ok step) (points observed : Int) :
    ∃ reachable next, p.nextThresholdReachable decks points observed = .ok reachable ∧
      ∀ smaller,
        (reachable = true ↔ ∃ n ∈ p.changes decks smaller points,
          n ≤ points + (Deck.totalPoints decks - observed)) ∧
        p.nextRelevantScore decks points smaller = .ok next ∧
        (reachable = true ↔ next ∈ p.changes decks smaller points ∧
          next ≤ points + (Deck.totalPoints decks - observed)) ∧
        ∃ result, p.levelDeltas decks points smaller = .ok result ∧
          (Inputs.score p decks smaller points).response =
            .ok (.record [("score_result", writeScore result), ("next_threshold", .int next)]) := by
  obtain ⟨found, hfound, hfirst⟩ := nextThreshold?_isFirst h points false
  obtain ⟨reachable, hreachable, hiff⟩ := @exists_reachable_iff p decks points observed found hfound
  obtain ⟨next, hnext⟩ := exists_nextRelevantScore h points
  refine ⟨reachable, next, hreachable, fun smaller => ?_⟩
  have hchange : reachable = true ↔ ∃ n ∈ p.changes decks smaller points,
      n ≤ points + (Deck.totalPoints decks - observed) := by
    rw [hiff, changes_eq h smaller false, hfirst.exists_le_iff]
  refine ⟨hchange, hnext smaller, ?_, response_score h (hnext smaller)⟩
  rw [hchange, exists_change_le_iff h (hnext smaller)]

section

open scoped RowOrder

/-- At 130 points of two decks, with 130 seen, the last 70 are just enough for the threshold of 200. -/
theorem threshold_of_200_reachable :
    longDeadzone.stepSize [{}, {}] = .ok 40 ∧
      longDeadzone.nextThresholdReachable [{}, {}] 130 130 = .ok true ∧
      ∃ n ∈ longDeadzone.changes [{}, {}] true 130, n ≤ 130 + (200 - 130) := by
  have hstep : longDeadzone.stepSize [{}, {}] = .ok 40 := by rfl
  obtain ⟨reachable, next, hreachable, hall⟩ := reachable_iff_change hstep 130 130
  obtain ⟨hchange, -⟩ := hall true
  obtain rfl : true = reachable := Except.ok.inj hreachable
  exact ⟨hstep, hreachable, hchange.mp rfl⟩

end

end TractorRules
