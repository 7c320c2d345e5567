import TractorRules.Scoring

/-!
# The step of scoring

All results are measured in steps, and decks without a usable step have no results.  The step is the
only thing that can be wrong (`NoStep`): with one, every result is there, and there is a last threshold.
-/

namespace TractorRules

namespace ScoringParameters

variable {p : ScoringParameters} {decks : List Deck} {points observed : Int} {smaller : Bool}
  {fault : ScoringFault}

/-- The step as it comes out of the parameters, before it is checked. -/
def rawStep (p : ScoringParameters) (decks : List Deck) : Int :=
  p.stepPerDeck * (decks.length : Int) + (p.adjustments.lookup (decks.length : Int)).getD 0

/-- Why decks have no step: the first of the checks that fails. -/
inductive NoStep (p : ScoringParameters) (decks : List Deck) : ScoringFault → Prop
  | noDecks (h : decks = []) : NoStep p decks .noDecks
  | notPositive (hne : decks ≠ []) (h : p.rawStep decks ≤ 0) :
    NoStep p decks (.stepNotPositive (p.rawStep decks))
  | notMultiple (hne : decks ≠ []) (hpos : 0 < p.rawStep decks) (h : ¬5 ∣ p.rawStep decks) :
    NoStep p decks (.stepNotMultiple (p.rawStep decks))

theorem exists_noStep_iff (p : ScoringParameters) (decks : List Deck) :
    (∃ fault, p.NoStep decks fault) ↔
      decks = [] ∨ ¬(0 < p.rawStep decks ∧ 5 ∣ p.rawStep decks) := by
  constructor
  · intro h
    obtain ⟨fault, h⟩ := h
    cases h with
    | noDecks h => exact Or.inl h
    | notPositive hne h => exact Or.inr fun hok => by omega
    | notMultiple hne hpos h => exact Or.inr fun hok => h hok.2
  · intro h
    by_cases hne : decks = []
    · exact ⟨_, .noDecks hne⟩
    · by_cases hpos : 0 < p.rawStep decks
      · exact ⟨_, .notMultiple hne hpos fun hdvd => (h.resolve_left hne) ⟨hpos, hdvd⟩⟩
      · exact ⟨_, .notPositive hne (by omega)⟩

theorem stepSize_eq (p : ScoringParameters) (decks : List Deck) :
    p.stepSize decks = if decks = [] then .error .noDecks
      else if p.rawStep decks ≤ 0 then .error (.stepNotPositive (p.rawStep decks))
      else if ¬5 ∣ p.rawStep decks then .error (.stepNotMultiple (p.rawStep decks))
      else .ok (p.rawStep decks) := by
  have hunit : (¬5 ∣ p.rawStep decks) = (p.rawStep decks % pointUnit ≠ 0) := by
    rw [Int.dvd_iff_emod_eq_zero]
    rfl
  cases decks with
  | nil => rfl
  | cons d rest =>
    rw [if_neg (List.cons_ne_nil d rest)]
    simp only [hunit]
    rfl

theorem stepSize_error_iff : p.stepSize decks = .error fault ↔ p.NoStep decks fault := by
  rw [stepSize_eq]
  constructor
  · intro h
    split at h
    · rename_i hne
      exact Except.error.inj h ▸ .noDecks hne
    · rename_i hne
      split at h
      · rename_i hpos
        exact Except.error.inj h ▸ .notPositive hne hpos
      · rename_i hpos
        split at h
        · rename_i hdvd
          exact Except.error.inj h ▸ .notMultiple hne (by omega) hdvd
        · cases h
  · intro h
    cases h with
    | noDecks h => rw [if_pos h]
    | notPositive hne h => rw [if_neg hne, if_pos h]
    | notMultiple hne hpos h => rw [if_neg hne, if_neg (by omega), if_pos h]

/-- No result is divided by a step of zero. -/
theorem stepSize_pos {step : Int} (h : p.stepSize decks = .ok step) : 0 < step := by
  rw [stepSize_eq] at h
  split at h
  · cases h
  · split at h
    · cases h
    · split at h
      · cases h
      · cases h
        omega

/-! ### Nothing else is wrong -/

theorem levelDeltas_error_iff :
    p.levelDeltas decks points smaller = .error fault ↔ p.NoStep decks fault := by
  rw [← stepSize_error_iff, levelDeltas]
  cases p.stepSize decks <;> simp [bind, Except.bind, pure, Except.pure]

theorem explain_error_iff : p.explain decks smaller = .error fault ↔ p.NoStep decks fault := by
  rw [← stepSize_error_iff, explain]
  cases p.stepSize decks <;> simp [bind, Except.bind, pure, Except.pure]

theorem nextThreshold?_error_iff :
    p.nextThreshold? decks points smaller = .error fault ↔ p.NoStep decks fault := by
  rw [← stepSize_error_iff, nextThreshold?, levelDeltas, explain]
  cases p.stepSize decks <;> simp [bind, Except.bind, pure, Except.pure]

theorem nextThresholdReachable_error_iff :
    p.nextThresholdReachable decks points observed = .error fault ↔ p.NoStep decks fault := by
  have hnext : p.nextThreshold? decks points false = .error fault ↔ p.NoStep decks fault :=
    nextThreshold?_error_iff
  rw [← hnext, nextThresholdReachable]
  cases p.nextThreshold? decks points false with
  | error fault => simp [bind, Except.bind]
  | ok threshold => cases threshold <;> simp [bind, Except.bind, pure, Except.pure]

theorem nextRelevantScore_error_iff :
    p.nextRelevantScore decks points smaller = .error fault ↔ p.NoStep decks fault := by
  rw [← stepSize_error_iff, nextRelevantScore, nextThreshold?, levelDeltas, explain]
  cases p.stepSize decks with
  | error fault => simp [bind, Except.bind]
  | ok step =>
    simp only [bind, Except.bind, pure, Except.pure, reduceCtorEq, iff_false]
    split <;> simp

theorem exists_last_threshold {table : List (Int × ScoreResult)}
    (h : p.explain decks smaller = .ok table) : ∃ last, table.getLast? = some last := by
  have hne : table ≠ [] := by
    rw [explain] at h
    cases hs : p.stepSize decks with
    | error fault => simp [hs, bind, Except.bind] at h
    | ok step =>
      simp only [hs, bind, Except.bind, pure, Except.pure, Except.ok.injEq] at h
      rw [← h]
      simp [thresholds]
  exact ⟨_, List.getLast?_eq_some_getLast hne⟩

end ScoringParameters

end TractorRules
