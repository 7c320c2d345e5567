import TractorRules.Proofs.Scoring.Result
import Mathlib.Order.Bounds.Basic

/-!
# The next threshold

Only thresholds can be the first number of points with another result, so that looking through the
table of thresholds finds the least of all numbers of points that change the result
(`nextThreshold?_isFirst`).  Which numbers change the result does not depend on the bonus
(`changes_eq`).
-/

namespace TractorRules

/-- The least member of a set of numbers, if there is any. -/
def IsFirst (s : Set Int) : Option Int → Prop
  | some n => IsLeast s n
  | none => s = ∅

namespace IsFirst

variable {s part : Set Int} {found found' : Option Int}

theorem isLeast {first : Int} (h : IsFirst s (some first)) : IsLeast s first := h

theorem eq_empty (h : IsFirst s none) : s = ∅ := h

theorem of_part (h : IsFirst part found) (hsub : part ⊆ s) (hbelow : ∀ n ∈ s, ∃ m ∈ part, m ≤ n) :
    IsFirst s found := by
  cases found with
  | some first =>
    refine ⟨hsub h.isLeast.1, fun n hn => ?_⟩
    obtain ⟨m, hm, hle⟩ := hbelow n hn
    exact (h.isLeast.2 hm).trans hle
  | none =>
    apply Set.eq_empty_of_forall_notMem
    intro n hn
    obtain ⟨m, hm, -⟩ := hbelow n hn
    rw [h.eq_empty] at hm
    exact hm

theorem unique (h : IsFirst s found) (h' : IsFirst s found') : found = found' := by
  cases found with
  | some first =>
    cases found' with
    | some first' => rw [h.isLeast.unique h'.isLeast]
    | none => exact absurd h'.eq_empty h.isLeast.nonempty.ne_empty
  | none =>
    cases found' with
    | some first' => exact absurd h.eq_empty h'.isLeast.nonempty.ne_empty
    | none => rfl

theorem exists_le_iff (h : IsFirst s found) {bound : Int} :
    (∃ n ∈ s, n ≤ bound) ↔ ∃ n, found = some n ∧ n ≤ bound := by
  constructor
  · intro hle
    obtain ⟨n, hn, hbound⟩ := hle
    cases found with
    | some first => exact ⟨first, rfl, (h.isLeast.2 hn).trans hbound⟩
    | none =>
      rw [h.eq_empty] at hn
      exact absurd hn (Set.notMem_empty n)
  · intro hle
    obtain ⟨n, rfl, hbound⟩ := hle
    exact ⟨n, h.isLeast.1, hbound⟩

end IsFirst

theorem isFirst_find? {xs : List Int} (hxs : xs.Pairwise (· < ·)) (accept : Int → Bool) :
    IsFirst {x | x ∈ xs ∧ accept x = true} (xs.find? accept) := by
  cases hfind : xs.find? accept with
  | none =>
    apply Set.eq_empty_of_forall_notMem
    intro x hx
    exact List.find?_eq_none.mp hfind x hx.1 hx.2
  | some first =>
    obtain ⟨haccept, before, after, rfl, hbefore⟩ := List.find?_eq_some_iff_append.mp hfind
    refine ⟨⟨by simp, haccept⟩, fun x hx => ?_⟩
    obtain ⟨-, hafter, -⟩ := List.pairwise_append.mp hxs
    rcases List.mem_append.mp hx.1 with hmem | hmem
    · have hrefused := hbefore x hmem
      rw [hx.2] at hrefused
      cases hrefused
    · rcases List.mem_cons.mp hmem with rfl | hmem
      · exact le_rfl
      · exact ((List.pairwise_cons.mp hafter).1 x hmem).le

namespace ScoringParameters

variable {p : ScoringParameters} {decks : List Deck} {step total points : Int} {smaller : Bool}

/-! ### Thresholds -/

theorem mem_thresholds (hstep : 0 < step) (htotal : 0 ≤ total) {n : Int} :
    n ∈ thresholds step total ↔ ∃ steps, 0 ≤ steps ∧ steps ≤ total / step ∧ n = steps * step := by
  have hmost : 0 ≤ total / step := Int.ediv_nonneg htotal (by omega)
  simp only [thresholds, List.mem_map, List.mem_range]
  constructor
  · intro h
    obtain ⟨steps, hsteps, rfl⟩ := h
    exact ⟨steps, by omega, by omega, rfl⟩
  · intro h
    obtain ⟨steps, hpos, hle, rfl⟩ := h
    refine ⟨steps.toNat, by omega, ?_⟩
    rw [Int.toNat_of_nonneg hpos]

theorem pairwise_thresholds (hstep : 0 < step) : (thresholds step total).Pairwise (· < ·) := by
  apply List.pairwise_map.mpr
  apply List.pairwise_lt_range.imp
  intro steps steps' hlt
  exact Int.mul_lt_mul_of_pos_right (by omega) hstep

theorem getLast?_thresholds (htotal : 0 ≤ total) (hstep : 0 < step) :
    (thresholds step total).getLast? = some (total / step * step) := by
  have hmost : 0 ≤ total / step := Int.ediv_nonneg htotal (by omega)
  rw [thresholds, List.range_succ, List.map_append, List.map_singleton, List.getLast?_concat,
    Int.toNat_of_nonneg hmost]

theorem isGreatest_last_threshold (hstep : 0 < step) :
    IsGreatest {n | step ∣ n ∧ n ≤ total} (total / step * step) := by
  constructor
  · exact ⟨Int.dvd_mul_left _ _, Int.ediv_mul_le _ (by omega)⟩
  · intro n hn
    obtain ⟨⟨steps, rfl⟩, hle⟩ := hn
    rw [Int.mul_comm] at hle ⊢
    exact Int.mul_le_mul_of_nonneg_right ((Int.le_ediv_iff_mul_le hstep).mpr hle) (by omega)

/-! ### Points that change the result -/

/-- The numbers of points above the given one that have another result. -/
def changes (p : ScoringParameters) (decks : List Deck) (smaller : Bool) (points : Int) : Set Int :=
  {n | points < n ∧ p.levelDeltas decks n smaller ≠ p.levelDeltas decks points smaller}

theorem mem_changes_iff (h : p.stepSize decks = .ok step) {n : Int} :
    n ∈ p.changes decks smaller points ↔ points < n ∧
      ¬(wholeSteps step (Deck.totalPoints decks) n = wholeSteps step (Deck.totalPoints decks) points ∨
        p.InDeadzone (wholeSteps step (Deck.totalPoints decks) n) ∧
          p.InDeadzone (wholeSteps step (Deck.totalPoints decks) points)) := by
  show points < n ∧ p.levelDeltas decks n smaller ≠ p.levelDeltas decks points smaller ↔ _
  rw [levelDeltas_eq h, levelDeltas_eq h, ne_eq, Except.ok.injEq, resultOf_eq_iff]

theorem changes_eq (h : p.stepSize decks = .ok step) (smaller smaller' : Bool) :
    p.changes decks smaller points = p.changes decks smaller' points := by
  ext n
  rw [mem_changes_iff h, mem_changes_iff h]

theorem changes_eq_empty (h : p.stepSize decks = .ok step) (hall : Deck.totalPoints decks ≤ points) :
    p.changes decks smaller points = ∅ := by
  apply Set.eq_empty_of_forall_notMem
  intro n hn
  obtain ⟨habove, hother⟩ := (mem_changes_iff h).mp hn
  apply hother
  left
  rw [wholeSteps_of_total_le (hall.trans habove.le), wholeSteps_of_total_le hall]

-- the last threshold up to `n` has as many whole steps, and so the same result
theorem exists_threshold_le (h : p.stepSize decks = .ok step) {n : Int}
    (hn : n ∈ p.changes decks smaller points) :
    ∃ m ∈ p.changes decks smaller points, m ∈ thresholds step (Deck.totalPoints decks) ∧ m ≤ n := by
  have hstep := stepSize_pos h
  have htotal : (0 : Int) ≤ Deck.totalPoints decks := Int.natCast_nonneg _
  obtain ⟨habove, hother⟩ := (mem_changes_iff h).mp hn
  have hmost := @wholeSteps_le step (Deck.totalPoints decks) n hstep
  have hmono := @wholeSteps_mono step (Deck.totalPoints decks) points n hstep habove.le
  have hpos := @wholeSteps_nonneg step (Deck.totalPoints decks) points hstep htotal
  generalize hsteps : wholeSteps step (Deck.totalPoints decks) n = steps at *
  have hlt : wholeSteps step (Deck.totalPoints decks) points < steps := by omega
  refine ⟨steps * step, (mem_changes_iff h).mpr ⟨?_, ?_⟩, ?_, ?_⟩
  · exact lt_mul_of_wholeSteps_lt hstep htotal hlt hmost
  · rwa [wholeSteps_mul hstep (by omega) hmost]
  · exact (mem_thresholds hstep htotal).mpr ⟨steps, by omega, hmost, rfl⟩
  · rw [← hsteps]
    exact wholeSteps_mul_le hstep (by omega)

/-! ### The search -/

theorem explain_eq (h : p.stepSize decks = .ok step) :
    p.explain decks smaller = .ok ((thresholds step (Deck.totalPoints decks)).map fun n =>
      (n, p.resultAt step (Deck.totalPoints decks) smaller n)) := by
  rw [explain, h]
  rfl

def changesAt (p : ScoringParameters) (step total : Int) (smaller : Bool) (points n : Int) : Bool :=
  points < n && p.resultAt step total smaller n != p.resultAt step total smaller points

theorem changesAt_iff (h : p.stepSize decks = .ok step) {n : Int} :
    p.changesAt step (Deck.totalPoints decks) smaller points n = true ↔
      n ∈ p.changes decks smaller points := by
  have hresult (q : Int) : p.levelDeltas decks q smaller =
      .ok (p.resultAt step (Deck.totalPoints decks) smaller q) := by
    rw [levelDeltas, h]
    rfl
  show _ ↔ points < n ∧ p.levelDeltas decks n smaller ≠ p.levelDeltas decks points smaller
  rw [hresult, hresult, ne_eq, Except.ok.injEq, changesAt, Bool.and_eq_true, decide_eq_true_eq,
    bne_iff_ne]

theorem nextThreshold?_eq (h : p.stepSize decks = .ok step) :
    p.nextThreshold? decks points smaller = .ok ((thresholds step (Deck.totalPoints decks)).find?
      (p.changesAt step (Deck.totalPoints decks) smaller points)) := by
  rw [nextThreshold?, explain_eq h, levelDeltas, h]
  show Except.ok _ = _
  rw [List.find?_map, Option.map_map]
  exact congrArg Except.ok Option.map_id'

/-- The threshold that is found is the least number of points that changes the result. -/
theorem nextThreshold?_isFirst (h : p.stepSize decks = .ok step) (points : Int) (smaller : Bool) :
    ∃ found, p.nextThreshold? decks points smaller = .ok found ∧
      IsFirst (p.changes decks smaller points) found := by
  have hfirst := isFirst_find? (@pairwise_thresholds step (Deck.totalPoints decks) (stepSize_pos h))
    (p.changesAt step (Deck.totalPoints decks) smaller points)
  refine ⟨_, nextThreshold?_eq h, hfirst.of_part ?_ ?_⟩
  · intro n hn
    exact (changesAt_iff h).mp hn.2
  · intro n hn
    obtain ⟨m, hm, hmem, hle⟩ := exists_threshold_le h hn
    exact ⟨m, ⟨hmem, (changesAt_iff h).mpr hm⟩, hle⟩

theorem nextThreshold?_congr (h : p.stepSize decks = .ok step) (smaller smaller' : Bool) :
    p.nextThreshold? decks points smaller = p.nextThreshold? decks points smaller' := by
  obtain ⟨found, hfound, hfirst⟩ := nextThreshold?_isFirst h points smaller
  obtain ⟨found', hfound', hfirst'⟩ := nextThreshold?_isFirst h points smaller'
  rw [changes_eq h smaller smaller'] at hfirst
  rw [hfound, hfound', hfirst.unique hfirst']

theorem nextRelevantScore_of_some {n : Int}
    (hfound : p.nextThreshold? decks points smaller = .ok (some n)) :
    p.nextRelevantScore decks points smaller = .ok n := by
  rw [nextRelevantScore, hfound]
  rfl

theorem nextRelevantScore_of_none (h : p.stepSize decks = .ok step)
    (hfound : p.nextThreshold? decks points smaller = .ok none) :
    p.nextRelevantScore decks points smaller =
      .ok (Deck.totalPoints decks / step * step) := by
  rw [nextRelevantScore, hfound, explain_eq h]
  show Except.ok ((Option.map Prod.fst (List.getLast? (List.map _ _))).getD 0) = _
  rw [List.getLast?_map, getLast?_thresholds (Int.natCast_nonneg _) (stepSize_pos h)]
  rfl

theorem exists_nextRelevantScore (h : p.stepSize decks = .ok step) (points : Int) :
    ∃ next, ∀ smaller, p.nextRelevantScore decks points smaller = .ok next := by
  obtain ⟨found, hfound, -⟩ := nextThreshold?_isFirst h points false
  cases found with
  | some next =>
    refine ⟨next, fun smaller => nextRelevantScore_of_some ?_⟩
    rw [nextThreshold?_congr h smaller false, hfound]
  | none =>
    refine ⟨_, fun smaller => nextRelevantScore_of_none h ?_⟩
    rw [nextThreshold?_congr h smaller false, hfound]

/-- Points that change the result are in reach just when the next relevant number is. -/
theorem exists_change_le_iff (h : p.stepSize decks = .ok step) {next : Int}
    (hnext : p.nextRelevantScore decks points smaller = .ok next) (bound : Int) :
    (∃ n ∈ p.changes decks smaller points, n ≤ bound) ↔
      next ∈ p.changes decks smaller points ∧ next ≤ bound := by
  obtain ⟨found, hfound, hfirst⟩ := nextThreshold?_isFirst h points smaller
  rw [hfirst.exists_le_iff]
  cases found with
  | some first =>
    rw [nextRelevantScore_of_some hfound] at hnext
    obtain rfl := Except.ok.inj hnext
    simp [hfirst.isLeast.1]
  | none => simp [hfirst.eq_empty]

/-- The next relevant number of points is the least of all numbers above that change the result, and
the last threshold if none does. -/
theorem nextRelevantScore_is_least_change (h : p.stepSize decks = .ok step) (points : Int)
    (smaller : Bool) :
    ∃ next, p.nextRelevantScore decks points smaller = .ok next ∧
      ((p.changes decks smaller points).Nonempty → IsLeast (p.changes decks smaller points) next) ∧
      (p.changes decks smaller points = ∅ →
        IsGreatest {n | step ∣ n ∧ n ≤ (Deck.totalPoints decks : Int)} next) := by
  obtain ⟨found, hfound, hfirst⟩ := nextThreshold?_isFirst h points smaller
  cases found with
  | some next =>
    refine ⟨next, nextRelevantScore_of_some hfound, fun _ => hfirst.isLeast, fun hnone => ?_⟩
    exact absurd hnone hfirst.isLeast.nonempty.ne_empty
  | none =>
    refine ⟨_, nextRelevantScore_of_none h hfound, fun hsome => ?_, fun _ => ?_⟩
    · exact absurd hfirst.eq_empty hsome.ne_empty
    · exact isGreatest_last_threshold (stepSize_pos h)

/-- The opponents take over with the third step and climb from the fifth on. -/
def longDeadzone : ScoringParameters := { turnoverSteps := 3, deadzone := 2 }

/-- With two decks nobody moves from 120 points to 199, and nothing changes beyond 200. -/
theorem deadzone_left_at_200 :
    longDeadzone.stepSize [{}, {}] = .ok 40 ∧
      IsLeast (longDeadzone.changes [{}, {}] true 130) 200 ∧
      IsGreatest {n : Int | 40 ∣ n ∧ n ≤ 200} 200 := by
  have hstep : longDeadzone.stepSize [{}, {}] = .ok 40 := by rfl
  have hchange : 200 ∈ longDeadzone.changes [{}, {}] true 130 := (changesAt_iff hstep).mp (by rfl)
  have hnone : longDeadzone.changes [{}, {}] true 230 = ∅ := changes_eq_empty hstep (by decide)
  obtain ⟨next, hnext, hleast, -⟩ := nextRelevantScore_is_least_change hstep 130 true
  obtain ⟨last, hlast, -, hgreatest⟩ := nextRelevantScore_is_least_change hstep 230 true
  obtain rfl : 200 = next := Except.ok.inj hnext
  obtain rfl : 200 = last := Except.ok.inj hlast
  exact ⟨hstep, hleast ⟨200, hchange⟩, hgreatest hnone⟩

end ScoringParameters

end TractorRules
