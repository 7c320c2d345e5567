import TractorRules.Proofs.Trump.Order
import Mathlib.Data.List.Flatten

/-!
# Groups by effective suit

The groups hold the cards in sorted order (`groupBySuit_flatten`), each of them some cards of its
effective suit (`isSound_of_mem_groupBySuit`), and their suits go up, so that none comes twice
(`pairwise_groupBySuit`).
-/

namespace TractorRules.Trump

variable {t : Trump}

/-! ### Adjacent cards of one suit -/

theorem flatMap_consGroup (c : Card) (groups : List SuitGroup) :
    (t.consGroup c groups).flatMap SuitGroup.cards = c :: groups.flatMap SuitGroup.cards := by
  cases groups with
  | nil => rfl
  | cons g rest =>
    rw [consGroup]
    split <;> simp

theorem groupRuns_flatten (t : Trump) (cards : List Card) :
    (t.groupRuns cards).flatMap SuitGroup.cards = cards := by
  induction cards with
  | nil => rfl
  | cons c cards ih =>
    have hstep : t.groupRuns (c :: cards) = t.consGroup c (t.groupRuns cards) := rfl
    rw [hstep, flatMap_consGroup, ih]

/-- Some cards, all of the group's effective suit. -/
structure SuitGroup.IsSound (t : Trump) (g : SuitGroup) : Prop where
  ne_nil : g.cards ≠ []
  suit_eq : ∀ c ∈ g.cards, t.effectiveSuit c = g.suit

theorem isSound_of_mem_consGroup {c : Card} {groups : List SuitGroup}
    (h : ∀ g ∈ groups, g.IsSound t) : ∀ g ∈ t.consGroup c groups, g.IsSound t := by
  have hnew : SuitGroup.IsSound t ⟨t.effectiveSuit c, [c]⟩ := ⟨by simp, by simp⟩
  cases groups with
  | nil => simpa [consGroup] using hnew
  | cons g rest =>
    rw [List.forall_mem_cons] at h
    obtain ⟨hg, hrest⟩ := h
    rw [consGroup]
    split
    · rename_i hsuit
      refine List.forall_mem_cons.mpr ⟨⟨by simp, ?_⟩, hrest⟩
      exact List.forall_mem_cons.mpr ⟨hsuit, hg.suit_eq⟩
    · exact List.forall_mem_cons.mpr ⟨hnew, List.forall_mem_cons.mpr ⟨hg, hrest⟩⟩

theorem isSound_of_mem_groupRuns {cards : List Card} :
    ∀ g ∈ t.groupRuns cards, g.IsSound t := by
  induction cards with
  | nil => exact fun g hg => absurd hg List.not_mem_nil
  | cons c cards ih => exact isSound_of_mem_consGroup ih

theorem sublist_of_mem_groupRuns {cards : List Card} {g : SuitGroup}
    (hg : g ∈ t.groupRuns cards) : g.cards.Sublist cards := by
  have hsub := List.sublist_flatten_of_mem (List.mem_map_of_mem (f := SuitGroup.cards) hg)
  rwa [← List.flatMap_def, groupRuns_flatten] at hsub

/-! ### Sorted cards -/

theorem index_le_of_cardLe {c d : Card} (h : t.cardLe c d = true) :
    (t.effectiveSuit c).index ≤ (t.effectiveSuit d).index := by
  rw [cardLe_iff] at h
  simp only [SortKey.le, sortKey] at h
  omega

theorem pairwise_consGroup {c : Card} {groups : List SuitGroup}
    (h : groups.Pairwise fun g g' => g.suit.index < g'.suit.index)
    (hc : ∀ g ∈ groups, (t.effectiveSuit c).index ≤ g.suit.index) :
    (t.consGroup c groups).Pairwise fun g g' => g.suit.index < g'.suit.index := by
  cases groups with
  | nil => simp [consGroup]
  | cons g rest =>
    obtain ⟨hg, hrest⟩ := List.pairwise_cons.mp h
    rw [consGroup]
    split
    · exact List.pairwise_cons.mpr ⟨hg, hrest⟩
    · rename_i hsuit
      have hle := hc g List.mem_cons_self
      have hne : (t.effectiveSuit c).index ≠ g.suit.index := fun he =>
        hsuit (EffectiveSuit.index_injective he)
      refine List.pairwise_cons.mpr ⟨List.forall_mem_cons.mpr ⟨?_, fun g' hg' => ?_⟩, h⟩
      · show (t.effectiveSuit c).index < g.suit.index
        omega
      · show (t.effectiveSuit c).index < g'.suit.index
        have hlt := hg g' hg'
        omega

theorem pairwise_groupRuns {cards : List Card}
    (h : cards.Pairwise fun a b => t.cardLe a b = true) :
    (t.groupRuns cards).Pairwise fun g g' => g.suit.index < g'.suit.index := by
  induction cards with
  | nil => exact .nil
  | cons c cards ih =>
    obtain ⟨hc, hcards⟩ := List.pairwise_cons.mp h
    refine pairwise_consGroup (ih hcards) fun g hg => ?_
    have hsound := isSound_of_mem_groupRuns g hg
    obtain ⟨d, hd⟩ := List.exists_mem_of_ne_nil _ hsound.ne_nil
    rw [← hsound.suit_eq d hd]
    exact index_le_of_cardLe (hc d ((sublist_of_mem_groupRuns hg).subset hd))

/-! ### All cards -/

theorem groupBySuit_flatten (t : Trump) (cards : List Card) :
    (t.groupBySuit cards).flatMap SuitGroup.cards = t.sort cards := groupRuns_flatten t _

theorem groupBySuit_flatten_perm (t : Trump) (cards : List Card) :
    ((t.groupBySuit cards).flatMap SuitGroup.cards).Perm cards := by
  rw [groupBySuit_flatten]
  exact t.sort_perm cards

theorem groupBySuit_ne_nil {cards : List Card} (h : cards ≠ []) : t.groupBySuit cards ≠ [] := by
  intro hnil
  have hperm := t.groupBySuit_flatten_perm cards
  rw [hnil] at hperm
  exact h hperm.symm.eq_nil

theorem isSound_of_mem_groupBySuit {cards : List Card} {g : SuitGroup}
    (hg : g ∈ t.groupBySuit cards) : g.IsSound t := isSound_of_mem_groupRuns g hg

theorem pairwise_cards_of_mem_groupBySuit {cards : List Card} {g : SuitGroup}
    (hg : g ∈ t.groupBySuit cards) : g.cards.Pairwise fun a b => t.cardLe a b = true :=
  (t.pairwise_sort cards).sublist (sublist_of_mem_groupRuns hg)

theorem pairwise_groupBySuit (t : Trump) (cards : List Card) :
    (t.groupBySuit cards).Pairwise fun g g' => g.suit.index < g'.suit.index :=
  pairwise_groupRuns (t.pairwise_sort cards)

end TractorRules.Trump
