import TractorRules.Proofs.Trump.Order
import TractorRules.Grouping.Run
import Mathlib.Data.List.Chain

/-!
# Runs

The searches for runs find exactly the runs of usable cards (`mem_runsOfLength`, `mem_climbs`): a run
of distinct cards in a sorted list is a sublist of it, so that looking only at later cards misses
none.  No run is found twice.
-/

namespace TractorRules.Trump

/-- Cards of one effective suit on consecutive rungs, going up by one. -/
def IsRun (t : Trump) (run : List Card) : Prop := run.IsChain fun a b => t.isAdjacent a b = true

variable {t : Trump}

theorem isRun_cons_cons {a b : Card} {run : List Card} :
    t.IsRun (a :: b :: run) ↔ t.isAdjacent a b = true ∧ t.IsRun (b :: run) := by
  simp [IsRun]

theorem isRun_singleton (a : Card) : t.IsRun [a] := .singleton a

theorem isAdjacent_iff {a b : Card} :
    t.isAdjacent a b = true ↔ t.effectiveSuit a = t.effectiveSuit b ∧ t.rung b = t.rung a + 1 := by
  simp [isAdjacent]

theorem IsRun.pairwise {run : List Card} (h : t.IsRun run) :
    run.Pairwise fun a b => t.effectiveSuit a = t.effectiveSuit b ∧ t.rung a < t.rung b := by
  have : IsTrans Card fun a b => t.effectiveSuit a = t.effectiveSuit b ∧ t.rung a < t.rung b :=
    ⟨fun a b c hab hbc => ⟨hab.1.trans hbc.1, hab.2.trans hbc.2⟩⟩
  refine List.isChain_iff_pairwise.mp (h.imp fun a b hab => ?_)
  obtain ⟨he, hr⟩ := isAdjacent_iff.mp hab
  exact ⟨he, by omega⟩

theorem IsRun.nodup {run : List Card} (h : t.IsRun run) : run.Nodup :=
  h.pairwise.imp fun hab he => by
    subst he
    omega

theorem IsRun.pairwise_cardLe {run : List Card} (h : t.IsRun run) :
    run.Pairwise fun a b => t.cardLe a b = true := by
  refine h.pairwise.imp fun {a b} hab => ?_
  rw [cardLe_iff]
  exact Or.inr ⟨by simp only [sortKey, hab.1], Or.inl hab.2⟩

theorem IsRun.effectiveSuit_eq {run : List Card} (h : t.IsRun run) :
    ∀ a ∈ run, ∀ b ∈ run, t.effectiveSuit a = t.effectiveSuit b := by
  have hsame : (run.map t.effectiveSuit).Pairwise Eq :=
    List.pairwise_map.mpr (h.pairwise.imp fun hab => hab.1)
  intro a ha b hb
  exact hsame.forall_of_forall (fun _ _ => rfl) (List.mem_map_of_mem ha) (List.mem_map_of_mem hb)

/-! ### Runs of a length -/

theorem mem_ascents {usable : Card → Bool} {n : Nat} {last : Card} {rest run : List Card} :
    run ∈ t.ascents usable n last rest ↔
      run.length = n ∧ run.Sublist rest ∧ t.IsRun (last :: run) ∧ ∀ c ∈ run, usable c = true := by
  induction rest generalizing n last run with
  | nil =>
    cases n with
    | zero =>
      simp only [ascents, List.mem_singleton, List.length_eq_zero_iff]
      constructor
      · intro h
        subst h
        exact ⟨rfl, List.Sublist.refl _, isRun_singleton last, by simp⟩
      · exact fun h => h.1
    | succ n =>
      simp only [ascents, List.not_mem_nil, List.sublist_nil, false_iff]
      intro h
      rw [h.2.1] at h
      simp at h
  | cons c rest ih =>
    cases n with
    | zero =>
      simp only [ascents, List.mem_singleton, List.length_eq_zero_iff]
      constructor
      · intro h
        subst h
        exact ⟨rfl, List.nil_sublist _, isRun_singleton last, by simp⟩
      · exact fun h => h.1
    | succ n =>
      simp only [ascents, List.mem_append, ih]
      constructor
      · intro hspec
        rcases hspec with h | ⟨hl, hs, hr⟩
        · split at h
          · rename_i hc
            rw [Bool.and_eq_true] at hc
            obtain ⟨run', hrun', rfl⟩ := List.mem_map.mp h
            obtain ⟨hl, hs, hr, hu⟩ := ih.mp hrun'
            refine ⟨by simp [hl], hs.cons_cons c, isRun_cons_cons.mpr ⟨hc.1, hr⟩, ?_⟩
            simpa [hc.2] using hu
          · simp at h
        · exact ⟨hl, hs.cons c, hr⟩
      · intro hspec
        obtain ⟨hl, hs, hr, hu⟩ := hspec
        rcases List.sublist_cons_iff.mp hs with hs | ⟨run', rfl, hs'⟩
        · exact Or.inr ⟨hl, hs, hr, hu⟩
        · left
          obtain ⟨hadj, hr⟩ := isRun_cons_cons.mp hr
          rw [if_pos (by rw [hadj, hu c (by simp)]; rfl)]
          refine List.mem_map.mpr ⟨run', ih.mpr ⟨?_, hs', hr, ?_⟩, rfl⟩
          · simpa using hl
          · exact fun d hd => hu d (List.mem_cons_of_mem _ hd)

theorem mem_runsOfLength_of_sublist {usable : Card → Bool} {n : Nat} {order run : List Card}
    (hn : 0 < n) :
    run ∈ t.runsOfLength usable n order ↔
      run.length = n ∧ run.Sublist order ∧ t.IsRun run ∧ ∀ c ∈ run, usable c = true := by
  induction order with
  | nil =>
    simp only [runsOfLength, List.not_mem_nil, List.sublist_nil, false_iff]
    intro h
    rw [h.2.1, List.length_nil] at h
    omega
  | cons c rest ih =>
    simp only [runsOfLength, List.mem_append, ih]
    constructor
    · intro hspec
      rcases hspec with h | ⟨hl, hs, hr⟩
      · split at h
        · rename_i hc
          obtain ⟨run', hrun', rfl⟩ := List.mem_map.mp h
          obtain ⟨hl, hs, hr, hu⟩ := mem_ascents.mp hrun'
          refine ⟨?_, hs.cons_cons c, hr, by simpa [hc] using hu⟩
          rw [List.length_cons, hl]
          omega
        · simp at h
      · exact ⟨hl, hs.cons c, hr⟩
    · intro hspec
      obtain ⟨hl, hs, hr, hu⟩ := hspec
      rcases List.sublist_cons_iff.mp hs with hs | ⟨run', rfl, hs'⟩
      · exact Or.inr ⟨hl, hs, hr, hu⟩
      · left
        rw [if_pos (hu c (by simp))]
        refine List.mem_map.mpr ⟨run', mem_ascents.mpr ⟨?_, hs', hr, ?_⟩, rfl⟩
        · rw [List.length_cons] at hl
          omega
        · exact fun d hd => hu d (List.mem_cons_of_mem _ hd)

/-- In a sorted list of distinct cards the search finds every run of the length. -/
theorem mem_runsOfLength {usable : Card → Bool} {n : Nat} {order run : List Card} (hn : 0 < n)
    (ho : order.Pairwise fun a b => t.cardLe a b = true) :
    run ∈ t.runsOfLength usable n order ↔
      run.length = n ∧ run ⊆ order ∧ t.IsRun run ∧ ∀ c ∈ run, usable c = true := by
  rw [mem_runsOfLength_of_sublist hn]
  constructor
  · exact fun ⟨hl, hs, h⟩ => ⟨hl, hs.subset, h⟩
  · exact fun ⟨hl, hs, hr, hu⟩ =>
      ⟨hl, t.sublist_of_subset hr.nodup hs hr.pairwise_cardLe ho, hr, hu⟩

theorem nodup_ascents {usable : Card → Bool} {n : Nat} {last : Card} {rest : List Card}
    (hn : rest.Nodup) : (t.ascents usable n last rest).Nodup := by
  induction rest generalizing n last with
  | nil => cases n <;> simp [ascents]
  | cons c rest ih =>
    obtain ⟨hc, hrest⟩ := List.nodup_cons.mp hn
    cases n with
    | zero => simp [ascents]
    | succ n =>
      rw [ascents, List.nodup_append]
      refine ⟨?_, ih hrest, ?_⟩
      · split
        · exact (ih hrest).map List.cons_injective
        · exact .nil
      · intro run hrun run' hrun' heq
        split at hrun
        · obtain ⟨more, -, rfl⟩ := List.mem_map.mp hrun
          exact hc ((mem_ascents.mp hrun').2.1.subset (heq ▸ List.mem_cons_self))
        · simp at hrun

theorem nodup_runsOfLength {usable : Card → Bool} {n : Nat} {order : List Card} (hpos : 0 < n)
    (hn : order.Nodup) : (t.runsOfLength usable n order).Nodup := by
  induction order with
  | nil => exact .nil
  | cons c rest ih =>
    obtain ⟨hc, hrest⟩ := List.nodup_cons.mp hn
    rw [runsOfLength, List.nodup_append]
    refine ⟨?_, ih hrest, ?_⟩
    · split
      · exact (nodup_ascents hrest).map List.cons_injective
      · exact .nil
    · intro run hrun run' hrun' heq
      split at hrun
      · obtain ⟨more, -, rfl⟩ := List.mem_map.mp hrun
        have hsub := ((mem_runsOfLength_of_sublist hpos).mp hrun').2.1
        exact hc (hsub.subset (heq ▸ List.mem_cons_self))
      · simp at hrun

/-! ### Climbing -/

theorem mem_climbs {usable : Card → Bool} {last : Card} {below rest run : List Card} :
    run ∈ t.climbs usable last below rest ↔
      ∃ more, more ≠ [] ∧ run = (last :: below).reverse ++ more ∧ more.Sublist rest ∧
        t.IsRun (last :: more) ∧ ∀ c ∈ more, usable c = true := by
  induction rest generalizing last below with
  | nil =>
    simp only [climbs, List.not_mem_nil, List.sublist_nil, false_iff]
    intro hspec
    obtain ⟨more, hne, -, hs, -⟩ := hspec
    exact hne hs
  | cons c rest ih =>
    simp only [climbs, List.mem_append, ih]
    constructor
    · intro hspec
      rcases hspec with h | ⟨more, hne, he, hs, h⟩
      · split at h
        · rename_i hc
          rw [Bool.and_eq_true] at hc
          rcases List.mem_cons.mp h with rfl | h
          · refine ⟨[c], by simp, by simp, by simp, ?_, by simp [hc.2]⟩
            exact isRun_cons_cons.mpr ⟨hc.1, isRun_singleton c⟩
          · obtain ⟨more, hne, rfl, hs, hr, hu⟩ := ih.mp h
            refine ⟨c :: more, by simp, by simp, hs.cons_cons c, ?_, by simpa [hc.2] using hu⟩
            exact isRun_cons_cons.mpr ⟨hc.1, hr⟩
        · simp at h
      · exact ⟨more, hne, he, hs.cons c, h⟩
    · intro hspec
      obtain ⟨more, hne, he, hs, hr, hu⟩ := hspec
      rcases List.sublist_cons_iff.mp hs with hs | ⟨more', rfl, hs'⟩
      · exact Or.inr ⟨more, hne, he, hs, hr, hu⟩
      · left
        obtain ⟨hadj, hr⟩ := isRun_cons_cons.mp hr
        rw [if_pos (by rw [hadj, hu c (by simp)]; rfl), List.mem_cons, ih]
        by_cases hm : more' = []
        · exact Or.inl (by simp [he, hm])
        · refine Or.inr ⟨more', hm, by simp [he], hs', hr, ?_⟩
          exact fun d hd => hu d (List.mem_cons_of_mem _ hd)

theorem nodup_climbs {usable : Card → Bool} {last : Card} {below rest : List Card}
    (hn : rest.Nodup) : (t.climbs usable last below rest).Nodup := by
  induction rest generalizing last below with
  | nil => exact .nil
  | cons c rest ih =>
    obtain ⟨hc, hrest⟩ := List.nodup_cons.mp hn
    rw [climbs, List.nodup_append]
    refine ⟨?_, ih hrest, ?_⟩
    · split
      · refine List.nodup_cons.mpr ⟨fun hmem => ?_, ih hrest⟩
        obtain ⟨more, hne, heq, -⟩ := mem_climbs.mp hmem
        exact hne (List.self_eq_append_right.mp heq)
      · exact .nil
    · intro run hrun run' hrun' heq
      obtain ⟨later, -, hlater, hsub, -⟩ := mem_climbs.mp hrun'
      -- a run of the first kind goes on with `c`, one of the second with a later card
      have hnext : ∃ more, run = (last :: below).reverse ++ c :: more := by
        split at hrun
        · rcases List.mem_cons.mp hrun with rfl | hmem
          · exact ⟨[], by simp⟩
          · obtain ⟨more, -, rfl, -⟩ := mem_climbs.mp hmem
            exact ⟨more, by simp⟩
        · simp at hrun
      obtain ⟨more, rfl⟩ := hnext
      have htail : c :: more = later := List.append_cancel_left (heq.trans hlater)
      exact hc (hsub.subset (htail ▸ List.mem_cons_self))

end TractorRules.Trump
