import TractorRules.Proofs.Scoring.Threshold
import Mathlib.Tactic.IntervalCases

/-!
# How great results are

A deck has at most 54 cards and 100 points.  Everything in a result is bounded by the points of the
decks and the parameters: thresholds lie within the total, and levels are counted in whole steps.
-/

namespace TractorRules

namespace Deck

theorem size_le (d : Deck) : d.size ≤ 54 := by
  have htwo := d.minimum.two_le
  unfold size
  split <;> split <;> omega

theorem points_le (d : Deck) : d.points ≤ 100 := by
  obtain ⟨withoutSmall, withoutBig, ⟨n, htwo, hmost⟩⟩ := d
  interval_cases n <;> cases withoutSmall <;> cases withoutBig <;> decide +revert

theorem foldr_le {measure : Deck → Nat} {most : Nat} (h : ∀ d, measure d ≤ most)
    (decks : List Deck) : (decks.map measure).foldr (· + ·) 0 ≤ most * decks.length := by
  induction decks with
  | nil => exact Nat.zero_le _
  | cons d rest ih =>
    have hd := h d
    rw [List.map_cons, List.foldr_cons, List.length_cons, Nat.mul_succ]
    omega

theorem totalSize_le (decks : List Deck) : totalSize decks ≤ 54 * decks.length := foldr_le size_le decks

theorem totalPoints_le (decks : List Deck) : totalPoints decks ≤ 100 * decks.length :=
  foldr_le points_le decks

end Deck

namespace ScoringParameters

variable {p : ScoringParameters} {decks : List Deck} {step total points : Int} {smaller : Bool}

theorem rawStep_le {most : Nat} (hstep : p.stepPerDeck.natAbs ≤ most)
    (hadjustments : ∀ count n, p.adjustments.lookup count = some n → n.natAbs ≤ most) :
    (p.rawStep decks).natAbs ≤ most * (decks.length + 1) := by
  have share : (p.stepPerDeck * (decks.length : Int)).natAbs ≤ most * decks.length := by
    rw [Int.natAbs_mul, Int.natAbs_natCast]
    exact Nat.mul_le_mul_right _ hstep
  have adjustment : ((p.adjustments.lookup (decks.length : Int)).getD 0).natAbs ≤ most := by
    cases hn : p.adjustments.lookup (decks.length : Int) with
    | none => exact Nat.zero_le _
    | some n => exact hadjustments _ n hn
  rw [Nat.mul_succ]
  exact (Int.natAbs_add_le _ _).trans (Nat.add_le_add share adjustment)

theorem stepSize_le (h : p.stepSize decks = .ok step) {most : Nat}
    (hstep : p.stepPerDeck.natAbs ≤ most)
    (hadjustments : ∀ count n, p.adjustments.lookup count = some n → n.natAbs ≤ most) :
    step.natAbs ≤ most * (decks.length + 1) := by
  rw [stepSize_eq] at h
  split_ifs at h
  exact Except.ok.inj h ▸ rawStep_le hstep hadjustments

theorem thresholds_range (hstep : 0 < step) (htotal : 0 ≤ total) {n : Int}
    (h : n ∈ thresholds step total) : 0 ≤ n ∧ n ≤ total := by
  obtain ⟨steps, hpos, hle, rfl⟩ := (mem_thresholds hstep htotal).mp h
  exact ⟨Int.mul_nonneg hpos hstep.le, (Int.le_ediv_iff_mul_le hstep).mp hle⟩

theorem nextRelevantScore_range (h : p.stepSize decks = .ok step) {next : Int}
    (hnext : p.nextRelevantScore decks points smaller = .ok next) :
    0 ≤ next ∧ next ≤ Deck.totalPoints decks := by
  have hstep := stepSize_pos h
  have htotal : (0 : Int) ≤ Deck.totalPoints decks := Int.natCast_nonneg _
  apply thresholds_range hstep htotal
  have hfound := @nextThreshold?_eq p decks step points smaller h
  generalize hf : (thresholds step (Deck.totalPoints decks)).find? _ = found at hfound
  cases found with
  | some n =>
    rw [nextRelevantScore_of_some hfound] at hnext
    exact Except.ok.inj hnext ▸ List.mem_of_find?_eq_some hf
  | none =>
    rw [nextRelevantScore_of_none h hfound] at hnext
    exact Except.ok.inj hnext ▸ List.mem_of_getLast? (getLast?_thresholds htotal hstep)

theorem exists_step_of_levelDeltas {r : ScoreResult}
    (h : p.levelDeltas decks points smaller = .ok r) :
    ∃ step, p.stepSize decks = .ok step ∧
      r = p.resultAt step (Deck.totalPoints decks) smaller points := by
  unfold levelDeltas at h
  cases hstep : p.stepSize decks with
  | ok step =>
    rw [hstep] at h
    exact ⟨step, rfl, (Except.ok.inj h).symm⟩
  | error fault =>
    rw [hstep] at h
    cases h

/-- Where the levels of a result can lie. -/
structure Levels (p : ScoringParameters) (total : Int) (r : ScoreResult) : Prop where
  landlord_nonneg : 0 ≤ r.landlordDelta
  landlord_le : r.landlordDelta ≤ p.turnoverSteps + 1
  opponent_nonneg : 0 ≤ r.opponentDelta
  opponent_le : r.opponentDelta ≤ total + 1

theorem levels_resultAt (hstep : 0 < step) (htotal : 0 ≤ total) :
    p.Levels total (p.resultAt step total smaller points) := by
  have hnonneg := @wholeSteps_nonneg step total points hstep htotal
  have hmost : wholeSteps step total points ≤ total :=
    (wholeSteps_le hstep).trans (Int.ediv_le_self _ htotal)
  have hturnover := p.turnoverSteps_pos
  have hdeadzone := p.deadzone_nonneg
  rw [resultAt_eq hstep]
  generalize wholeSteps step total points = steps at hnonneg hmost
  unfold resultOf
  split_ifs
  · refine ⟨?_, ?_, le_rfl, ?_⟩ <;> dsimp only
    · split <;> omega
    · split <;> omega
    · omega
  · constructor <;> dsimp only <;> omega

end ScoringParameters

end TractorRules
