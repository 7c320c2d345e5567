import TractorRules.Proofs.Scoring.Threshold
import Mathlib.Order.MinMax

/-!
# The table is all of scoring

The thresholds are all multiples of the step within the points of the decks (`getElem?_thresholds`).
The result of any number of points stands in the last row that the points reach
(`table_gives_all_results`), so that only the step in which the points lie makes a difference.
-/

namespace TractorRules

theorem getLast?_filter_of_isGreatest {xs : List Int} (hxs : xs.Pairwise (· < ·))
    {accept : Int → Bool} {x : Int} (hx : IsGreatest {y | y ∈ xs ∧ accept y = true} x) :
    (xs.filter accept).getLast? = some x := by
  have hmem : x ∈ xs.filter accept := List.mem_filter.mpr hx.1
  have hlast : (xs.filter accept).getLast? = some ((xs.filter accept).getLast _) :=
    List.getLast?_eq_some_getLast (List.ne_nil_of_mem hmem)
  generalize (xs.filter accept).getLast _ = last at hlast
  obtain ⟨before, heq⟩ := List.getLast?_eq_some_iff.mp hlast
  have hle : last ≤ x := hx.2 (List.mem_filter.mp (heq ▸ List.mem_append_right _ (by simp)))
  have hsorted := hxs.filter accept
  rw [heq] at hmem hsorted
  rcases List.mem_append.mp hmem with hbefore | hx
  · have hless := (List.pairwise_append.mp hsorted).2.2 x hbefore last (by simp)
    omega
  · rw [hlast, List.mem_singleton.mp hx]

namespace ScoringParameters

variable {p : ScoringParameters} {decks : List Deck} {step total points points' : Int} {smaller : Bool}

theorem getElem?_thresholds (hstep : 0 < step) (htotal : 0 ≤ total) (k : Nat) :
    (thresholds step total)[k]? = if (k : Int) * step ≤ total then some ((k : Int) * step) else none := by
  have hmost : 0 ≤ total / step := Int.ediv_nonneg htotal (by omega)
  have hwithin : (k : Int) * step ≤ total ↔ (k : Int) ≤ total / step :=
    (Int.le_ediv_iff_mul_le hstep).symm
  unfold thresholds
  rw [List.getElem?_map]
  split
  · rename_i hle
    rw [List.getElem?_range (by have := hwithin.mp hle; omega)]
    rfl
  · rename_i hbeyond
    rw [List.getElem?_eq_none (by rw [List.length_range]; omega)]
    rfl

theorem wholeSteps_eq (hstep : 0 < step) :
    wholeSteps step total points = min (max (points / step) 0) (total / step) := by
  -- dividing keeps the order, so it may be done before the points are cut at both ends
  have hmono : Monotone fun n : Int => n / step := fun _ _ h => Int.ediv_le_ediv hstep h
  calc wholeSteps step total points
      = min (max points 0 / step) (total / step) := hmono.map_min
    _ = min (max (points / step) (0 / step)) (total / step) := by rw [hmono.map_max]
    _ = min (max (points / step) 0) (total / step) := by rw [Int.zero_ediv]

theorem levelDeltas_congr (h : p.stepSize decks = .ok step)
    (hsame : wholeSteps step (Deck.totalPoints decks) points =
      wholeSteps step (Deck.totalPoints decks) points') :
    p.levelDeltas decks points smaller = p.levelDeltas decks points' smaller := by
  rw [levelDeltas_eq h, levelDeltas_eq h, hsame]

/-- The last row of a table whose threshold the points reach. -/
def lastRow? (table : List (Int × ScoreResult)) (points : Int) : Option (Int × ScoreResult) :=
  (table.filter fun row => row.1 ≤ points).getLast?

theorem isGreatest_threshold (hstep : 0 < step) (htotal : 0 ≤ total) :
    IsGreatest {n | n ∈ thresholds step total ∧ decide (n ≤ counted total points) = true}
      (wholeSteps step total points * step) := by
  constructor
  · have hmem : wholeSteps step total points * step ∈ thresholds step total :=
      (mem_thresholds hstep htotal).mpr
        ⟨_, wholeSteps_nonneg hstep htotal, wholeSteps_le hstep, rfl⟩
    exact ⟨hmem, decide_eq_true (Int.ediv_mul_le _ (by omega))⟩
  · intro n hn
    obtain ⟨hmem, hle⟩ := hn
    obtain ⟨steps, -, -, rfl⟩ := (mem_thresholds hstep htotal).mp hmem
    have hsteps : steps ≤ wholeSteps step total points :=
      (Int.le_ediv_iff_mul_le hstep).mpr (of_decide_eq_true hle)
    exact Int.mul_le_mul_of_nonneg_right hsteps (by omega)

theorem lastRow?_map (hstep : 0 < step) (htotal : 0 ≤ total) (result : Int → ScoreResult) :
    lastRow? ((thresholds step total).map fun n => (n, result n)) (counted total points) =
      some (wholeSteps step total points * step, result (wholeSteps step total points * step)) := by
  have hlast := getLast?_filter_of_isGreatest (pairwise_thresholds hstep)
    (@isGreatest_threshold step total points hstep htotal)
  unfold lastRow?
  rw [List.filter_map, List.getLast?_map]
  exact congrArg (Option.map _) hlast

theorem resultAt_last_threshold (hstep : 0 < step) (htotal : 0 ≤ total) :
    p.resultAt step total smaller (wholeSteps step total points * step) =
      p.resultAt step total smaller points := by
  have hsame : wholeSteps step total (wholeSteps step total points * step) =
      wholeSteps step total points :=
    wholeSteps_mul hstep (wholeSteps_nonneg hstep htotal) (wholeSteps_le hstep)
  rw [resultAt_eq hstep, resultAt_eq hstep, hsame]

/-- The table has a row for each multiple of the step within the points of the decks, and no other.
It gives the result of every number of points: that of the last row that the points reach.  So the
result is the same in a whole step, from zero downwards, and from the points of the decks upwards. -/
theorem table_gives_all_results (h : p.stepSize decks = .ok step) (smaller : Bool) :
    ∃ table, p.explain decks smaller = .ok table ∧ table ≠ [] ∧
      (∀ k : Nat, (table[k]?).map Prod.fst =
        if (k : Int) * step ≤ Deck.totalPoints decks then some ((k : Int) * step) else none) ∧
      (∀ points, ∃ row, lastRow? table (counted (Deck.totalPoints decks) points) = some row ∧
        p.levelDeltas decks points smaller = .ok row.2) ∧
      (∀ points points', points / step = points' / step →
        p.levelDeltas decks points smaller = p.levelDeltas decks points' smaller) ∧
      (∀ points, points ≤ 0 →
        p.levelDeltas decks points smaller = p.levelDeltas decks 0 smaller) ∧
      ∀ points, (Deck.totalPoints decks : Int) ≤ points →
        p.levelDeltas decks points smaller =
          p.levelDeltas decks (Deck.totalPoints decks) smaller := by
  have hstep := stepSize_pos h
  have htotal : (0 : Int) ≤ Deck.totalPoints decks := Int.natCast_nonneg _
  refine ⟨_, explain_eq h, ?_, ?_, ?_, ?_, ?_, ?_⟩
  · simp [thresholds]
  · intro k
    rw [List.getElem?_map, Option.map_map, ← getElem?_thresholds hstep htotal k]
    exact Option.map_id'
  · intro points
    refine ⟨_, lastRow?_map hstep htotal _, ?_⟩
    rw [resultAt_last_threshold hstep htotal, levelDeltas_eq h, resultAt_eq hstep]
  · intro points points' hsame
    apply levelDeltas_congr h
    rw [wholeSteps_eq hstep, wholeSteps_eq hstep, hsame]
  · intro points hle
    apply levelDeltas_congr h
    rw [wholeSteps_of_nonpos htotal hle, wholeSteps_of_nonpos htotal le_rfl]
  · intro points hge
    apply levelDeltas_congr h
    rw [wholeSteps_of_total_le hge, wholeSteps_of_total_le le_rfl]

/-- Each step of two decks has five more points. -/
def widerSteps : ScoringParameters := { longDeadzone with adjustments := [(2, 5)] }

/-- Steps of 45 do not divide the 200 points of two decks: the last threshold is 180, and its result
is that of 199 points and of a thousand. -/
theorem last_step_cut_short :
    widerSteps.stepSize [{}, {}] = .ok 45 ∧
      ∃ table, widerSteps.explain [{}, {}] false = .ok table ∧
        (table[4]?).map Prod.fst = some 180 ∧ (table[5]?).map Prod.fst = none ∧
        (∃ row, lastRow? table 199 = some row ∧
          widerSteps.levelDeltas [{}, {}] 199 false = .ok row.2) ∧
        widerSteps.levelDeltas [{}, {}] 1000 false = widerSteps.levelDeltas [{}, {}] 200 false := by
  have hstep : widerSteps.stepSize [{}, {}] = .ok 45 := by rfl
  obtain ⟨table, htable, -, hthresholds, hrows, -, -, hbeyond⟩ := table_gives_all_results hstep false
  refine ⟨hstep, table, htable, ?_, ?_, hrows 199, hbeyond 1000 (by decide)⟩
  · exact (hthresholds 4).trans (by decide)
  · exact (hthresholds 5).trans (by decide)

end ScoringParameters

end TractorRules
