import TractorRules.Proofs.Grouping.Suit
import TractorRules.Proofs.Grouping.Combine
import TractorRules.Proofs.Trump.Groups
import TractorRules.Grouping.Combine
import TractorRules.Format.Basic

/-!
# Groupings cover the cards

Every grouping that is found consists of exactly the given cards (`perm_of_mem_groupings`), and there
is one as soon as there are cards (`groupings_ne_nil`).  So the format of a lead has as many cards as
the lead.
-/

namespace TractorRules

variable {t : Trump} {req : TractorRequirements} {cards : List Card}

/-! ### All suits -/

theorem cards_perm_of_isChoice {groups : List Trump.SuitGroup} {g : Grouping}
    (h : IsChoice (groups.map fun group => suitGroupings t req group.cards) g) :
    (Grouping.cards g).Perm (groups.flatMap Trump.SuitGroup.cards) := by
  induction groups generalizing g with
  | nil =>
    rw [isChoice_nil.mp h]
    exact .refl _
  | cons group groups ih =>
    obtain ⟨first, hfirst, rest, hrest, rfl⟩ := isChoice_cons.mp h
    rw [Grouping.cards_append, List.flatMap_cons]
    exact (perm_of_mem_suitGroupings hfirst).append (ih hrest)

theorem exists_isChoice (t : Trump) (req : TractorRequirements) (groups : List Trump.SuitGroup) :
    ∃ g, IsChoice (groups.map fun group => suitGroupings t req group.cards) g := by
  induction groups with
  | nil => exact ⟨[], isChoice_nil.mpr rfl⟩
  | cons group groups ih =>
    obtain ⟨rest, hrest⟩ := ih
    exact ⟨_, isChoice_cons.mpr ⟨_, List.mem_cons_self, rest, hrest, rfl⟩⟩

theorem groupings_eq (h : cards ≠ []) (b : Budget) :
    groupings t req cards b =
      combineSuits b ((t.groupBySuit cards).map fun group => suitGroupings t req group.cards) := by
  unfold groupings
  split
  · exact absurd ‹_› (Trump.groupBySuit_ne_nil h)
  · rfl

theorem groupings_eq_cut (b : Budget) :
    groupings t req cards b = b.cut (groupings t req cards none) := by
  unfold groupings
  split
  · exact b.cut_nil.symm
  · exact combineSuits_eq_cut b _

theorem perm_of_mem_groupings {b : Budget} {g : Grouping} (h : g ∈ groupings t req cards b) :
    (Grouping.cards g).Perm cards := by
  have hmem : g ∈ groupings t req cards none := by
    rw [groupings_eq_cut] at h
    cases b with
    | none => exact h
    | some n => exact List.mem_of_mem_take h
  unfold groupings at hmem
  split at hmem
  · simp at hmem
  · exact (cards_perm_of_isChoice (mem_combineSuits.mp hmem)).trans (t.groupBySuit_flatten_perm cards)

theorem groupings_ne_nil (h : cards ≠ []) : groupings t req cards none ≠ [] := by
  rw [groupings_eq h]
  obtain ⟨g, hg⟩ := exists_isChoice t req (t.groupBySuit cards)
  exact List.ne_nil_of_mem (mem_combineSuits.mpr hg)

theorem pairwise_length_groupings (t : Trump) (req : TractorRequirements) (cards : List Card) :
    (groupings t req cards none).Pairwise fun g g' => g.length ≤ g'.length := by
  unfold groupings
  split
  · exact .nil
  · exact pairwise_length_combineSuits _

theorem groupings_perm {cards' : List Card} (h : cards.Perm cards') (b : Budget) :
    groupings t req cards' b = groupings t req cards b := by
  rw [groupings, groupings, Trump.groupBySuit, Trump.groupBySuit, t.sort_eq_of_perm h]

/-! ### The format of a lead -/

/-- A lead has a format when it is of one effective suit, and then the shapes are those of its first
grouping. -/
theorem TrickFormat.ofLead_eq_ok_iff {f : TrickFormat} :
    ofLead t req cards = .ok f ↔
      cards ≠ [] ∧ (∀ c ∈ cards, t.effectiveSuit c = f.suit) ∧ f.trump = t ∧
        ∃ g, (groupings t req cards none).head? = some g ∧ f.units = g.map TrickUnit.shape := by
  cases cards with
  | nil => simp [ofLead]
  | cons first rest =>
    have hsome : groupings t req (first :: rest) none ≠ [] := groupings_ne_nil (by simp)
    obtain ⟨g, gs, hg⟩ := List.exists_cons_of_ne_nil hsome
    have hbest : groupings t req (first :: rest) (some 1) = [g] := by
      rw [groupings_eq_cut, hg]
      rfl
    have hall : (rest.all fun c => t.effectiveSuit c == t.effectiveSuit first) = true ↔
        ∀ c ∈ rest, t.effectiveSuit c = t.effectiveSuit first := by simp
    rw [ofLead, hbest, hg]
    constructor
    · intro h
      split at h
      · rename_i hrest
        obtain rfl := Except.ok.inj h
        exact ⟨by simp, List.forall_mem_cons.mpr ⟨rfl, hall.mp hrest⟩, rfl, g, rfl, rfl⟩
      · cases h
    · intro h
      obtain ⟨-, hsuit, rfl, g', hg', hunits⟩ := h
      obtain rfl := Option.some.inj hg'
      obtain ⟨hfirst, hrest⟩ := List.forall_mem_cons.mp hsuit
      rw [if_pos (hall.mpr fun c hc => (hrest c hc).trans hfirst.symm), hfirst]
      cases f
      simp only at hunits
      rw [hunits]
      rfl

/-- Cards of one effective suit have a format of that suit, with as many cards. -/
theorem TrickFormat.ofLead_ok {suit : EffectiveSuit} (hne : cards ≠ [])
    (hsuit : ∀ c ∈ cards, t.effectiveSuit c = suit) :
    ∃ f, ofLead t req cards = .ok f ∧ f.suit = suit ∧ f.trump = t ∧ f.size = cards.length := by
  have hsome : groupings t req cards none ≠ [] := groupings_ne_nil hne
  obtain ⟨g, gs, hg⟩ := List.exists_cons_of_ne_nil hsome
  have hperm : (Grouping.cards g).Perm cards :=
    perm_of_mem_groupings (b := none) (by rw [hg]; exact List.mem_cons_self)
  refine ⟨⟨suit, t, g.map TrickUnit.shape⟩, ?_, rfl, rfl, ?_⟩
  · exact ofLead_eq_ok_iff.mpr ⟨hne, hsuit, rfl, g, by rw [hg]; rfl, rfl⟩
  · rw [← hperm.length_eq, Grouping.length_cards]
    rfl

theorem TrickFormat.ofLead_mixed (h : ¬∃ suit, ∀ c ∈ cards, t.effectiveSuit c = suit) :
    ofLead t req cards = .error .mixedLead := by
  cases cards with
  | nil => exact absurd ⟨.trump, by simp⟩ h
  | cons first rest =>
    rw [ofLead, if_neg]
    intro hall
    refine h ⟨t.effectiveSuit first, List.forall_mem_cons.mpr ⟨rfl, fun c hc => ?_⟩⟩
    simpa using List.all_eq_true.mp hall c hc

theorem TrickFormat.ofLead_error_iff {fault : RulesFault} :
    ofLead t req cards = .error fault ↔ cards = [] ∧ fault = .emptyLead ∨
      (¬∃ suit, ∀ c ∈ cards, t.effectiveSuit c = suit) ∧ fault = .mixedLead := by
  by_cases hsuit : ∃ suit, ∀ c ∈ cards, t.effectiveSuit c = suit
  · by_cases hne : cards = []
    · subst hne
      rw [ofLead, Except.error.injEq, eq_comm]
      exact ⟨fun h => Or.inl ⟨rfl, h⟩, fun h => h.elim And.right fun hm => absurd hsuit hm.1⟩
    · obtain ⟨suit, hs⟩ := hsuit
      obtain ⟨f, hf, -⟩ := @ofLead_ok t req cards suit hne hs
      simp [hf, hne, show ∃ suit, ∀ c ∈ cards, t.effectiveSuit c = suit from ⟨suit, hs⟩]
  · have hne : cards ≠ [] := by
      rintro rfl
      exact hsuit ⟨.trump, by simp⟩
    rw [ofLead_mixed hsuit, Except.error.injEq, eq_comm]
    simp [hne, hsuit]

/-- The order in which the cards are led makes no difference. -/
theorem TrickFormat.ofLead_perm {cards' : List Card} (h : cards.Perm cards') :
    ofLead t req cards' = ofLead t req cards := by
  by_cases hsuit : ∃ suit, ∀ c ∈ cards, t.effectiveSuit c = suit
  · obtain ⟨suit, hsuit⟩ := hsuit
    by_cases hne : cards = []
    · subst hne
      rw [h.nil_eq]
    · obtain ⟨f, hf, -⟩ := @ofLead_ok t req cards suit hne hsuit
      obtain ⟨-, hs, hrest⟩ := ofLead_eq_ok_iff.mp hf
      have hne' : cards' ≠ [] := by
        rintro rfl
        exact hne h.eq_nil
      rw [hf, ofLead_eq_ok_iff, groupings_perm h]
      exact ⟨hne', fun c hc => hs c (h.mem_iff.mpr hc), hrest⟩
  · rw [ofLead_mixed hsuit, ofLead_mixed]
    simpa only [h.mem_iff] using hsuit

end TractorRules
