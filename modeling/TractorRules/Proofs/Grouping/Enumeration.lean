import TractorRules.Proofs.Grouping.Cover

/-!
# Enumeration of groupings

Without a bound the groupings of some cards are exactly those of the choices of allowed tractors that
the cards suffice for, each once (`groupings_are_choices_of_tractors`).  A tractor lies in one suit, so
a choice from all cards is a choice from each suit, and the suits' groupings are combined.
-/

namespace TractorRules

variable {t : Trump} {req : TractorRequirements} {cards cards' : Multiset Card}
  {T T' : Multiset Tractor}

/-! ### Tractors of several suits -/

theorem areTractorsOf_zero : AreTractorsOf t req 0 T ↔ T = 0 := by
  constructor
  · intro h
    refine Multiset.eq_zero_of_forall_notMem fun r hr => ?_
    obtain ⟨c, hc⟩ := List.exists_mem_of_ne_nil _ r.members_ne_nil
    have hmem : c ∈ cardsOf (T.map .tractor) := mem_cardsOf_tractors.mpr ⟨r, hr, hc⟩
    exact Multiset.notMem_zero c (Multiset.mem_of_le h.fits hmem)
  · rintro rfl
    exact ⟨fun r hr => absurd hr (Multiset.notMem_zero r), le_rfl⟩

theorem AreTractorsOf.add (h : AreTractorsOf t req cards T) (h' : AreTractorsOf t req cards' T') :
    AreTractorsOf t req (cards + cards') (T + T') := by
  refine ⟨fun r hr => (Multiset.mem_add.mp hr).elim (h.allowed r) (h'.allowed r), ?_⟩
  rw [Multiset.map_add, cardsOf_add]
  exact add_le_add h.fits h'.fits

def Tractor.LiesIn (t : Trump) (suit : EffectiveSuit) (r : Tractor) : Prop :=
  ∀ c ∈ r.members, t.effectiveSuit c = suit

instance (t : Trump) (suit : EffectiveSuit) : DecidablePred (Tractor.LiesIn t suit) := fun r =>
  inferInstanceAs (Decidable (∀ c ∈ r.members, t.effectiveSuit c = suit))

theorem left_le_of_add_le_add {xs ys : Multiset Card} (h : xs + ys ≤ cards + cards')
    (hxs : ∀ c ∈ xs, c ∉ cards') : xs ≤ cards := by
  rw [Multiset.le_iff_count] at h ⊢
  intro c
  have hc := h c
  rw [Multiset.count_add, Multiset.count_add] at hc
  by_cases hmem : c ∈ xs
  · rw [Multiset.count_eq_zero_of_notMem (hxs c hmem)] at hc
    omega
  · rw [Multiset.count_eq_zero_of_notMem hmem]
    exact Nat.zero_le _

theorem AreTractorsOf.split {suit : EffectiveSuit} (hcards : ∀ c ∈ cards, t.effectiveSuit c = suit)
    (hcards' : ∀ c ∈ cards', t.effectiveSuit c ≠ suit) (h : AreTractorsOf t req (cards + cards') T) :
    ∃ T₁ T₂, T = T₁ + T₂ ∧ AreTractorsOf t req cards T₁ ∧ AreTractorsOf t req cards' T₂ := by
  obtain ⟨T₁, hT₁⟩ : ∃ T₁, T₁ = T.filter (Tractor.LiesIn t suit) := ⟨_, rfl⟩
  obtain ⟨T₂, hT₂⟩ : ∃ T₂, T₂ = T.filter fun r => ¬r.LiesIn t suit := ⟨_, rfl⟩
  have hsplit : T = T₁ + T₂ := by rw [hT₁, hT₂, Multiset.filter_add_not]
  have hin {c : Card} (hc : c ∈ cardsOf (T₁.map .tractor)) : t.effectiveSuit c = suit := by
    obtain ⟨r, hr, hmem⟩ := mem_cardsOf_tractors.mp hc
    rw [hT₁, Multiset.mem_filter] at hr
    exact hr.2 c hmem
  have hout {c : Card} (hc : c ∈ cardsOf (T₂.map .tractor)) : t.effectiveSuit c ≠ suit := by
    obtain ⟨r, hr, hmem⟩ := mem_cardsOf_tractors.mp hc
    rw [hT₂, Multiset.mem_filter] at hr
    -- all members of the run are of the suit of `c`
    intro hsuit
    exact hr.2 fun d hd => ((h.allowed r hr.1).isRun.effectiveSuit_eq d hd c hmem).trans hsuit
  have hfits : cardsOf (T₁.map .tractor) + cardsOf (T₂.map .tractor) ≤ cards + cards' := by
    rw [← cardsOf_add, ← Multiset.map_add, ← hsplit]
    exact h.fits
  have hfits' : cardsOf (T₂.map .tractor) + cardsOf (T₁.map .tractor) ≤ cards' + cards := by
    rw [add_comm, add_comm cards']
    exact hfits
  have hallowed : ∀ r ∈ T₁ + T₂, r.IsAllowed t req := hsplit ▸ h.allowed
  refine ⟨T₁, T₂, hsplit, ⟨fun r hr => hallowed r (Multiset.mem_add.mpr (Or.inl hr)), ?_⟩,
    ⟨fun r hr => hallowed r (Multiset.mem_add.mpr (Or.inr hr)), ?_⟩⟩
  · exact left_le_of_add_le_add hfits fun c hc hmem => hcards' c hmem (hin hc)
  · exact left_le_of_add_le_add hfits' fun c hc hmem => hout hc (hcards c hmem)

/-! ### Groups of cards -/

variable {groups : List Trump.SuitGroup}

theorem apart_suitGroupings (hsound : ∀ g ∈ groups, g.IsSound t)
    (hsuits : groups.Pairwise fun g g' => g.suit ≠ g'.suit) :
    (groups.map fun g => suitGroupings t req g.cards).Pairwise Apart := by
  refine List.pairwise_map.mpr (hsuits.imp_of_mem fun {group group'} hmem hmem' hne => ?_)
  intro g hg g' hg' u hu hu'
  obtain ⟨c, hc⟩ := List.exists_mem_of_ne_nil _ u.members_ne_nil
  have hcards {group : Trump.SuitGroup} {g : Grouping} (hg : g ∈ suitGroupings t req group.cards)
      (hu : u ∈ g) : c ∈ group.cards :=
    (perm_of_mem_suitGroupings hg).subset (List.mem_flatMap.mpr ⟨u, hu, TrickUnit.mem_cards.mpr hc⟩)
  apply hne
  rw [← (hsound group hmem).suit_eq c (hcards hg hu), (hsound group' hmem').suit_eq c (hcards hg' hu')]

theorem exists_choice_iff (hsound : ∀ g ∈ groups, g.IsSound t)
    (hsorted : ∀ g ∈ groups, g.cards.Pairwise fun a b => t.cardLe a b = true)
    (hsuits : groups.Pairwise fun g g' => g.suit ≠ g'.suit) {units : Multiset TrickUnit} :
    (∃ g, IsChoice (groups.map fun group => suitGroupings t req group.cards) g ∧
        (g : Multiset TrickUnit) = units) ↔
      ∃ T, AreTractorsOf t req (groups.flatMap Trump.SuitGroup.cards) T ∧
        withRest (groups.flatMap Trump.SuitGroup.cards) T = units := by
  induction groups generalizing units with
  | nil =>
    show (∃ g, IsChoice [] g ∧ _) ↔ ∃ T, AreTractorsOf t req 0 T ∧ withRest 0 T = units
    simp only [isChoice_nil, areTractorsOf_zero, exists_eq_left]
    rfl
  | cons group groups ih =>
    obtain ⟨hgroup, hsound⟩ := List.forall_mem_cons.mp hsound
    obtain ⟨hsort, hsorted⟩ := List.forall_mem_cons.mp hsorted
    obtain ⟨hnew, hsuits⟩ := List.pairwise_cons.mp hsuits
    have hlater : ∀ c ∈ groups.flatMap Trump.SuitGroup.cards, t.effectiveSuit c ≠ group.suit := by
      intro c hc
      obtain ⟨group', hmem, hc'⟩ := List.mem_flatMap.mp hc
      rw [(hsound group' hmem).suit_eq c hc']
      exact (hnew group' hmem).symm
    have hdisjoint : Disjoint (group.cards : Multiset Card)
        (groups.flatMap Trump.SuitGroup.cards : List Card) :=
      Multiset.disjoint_left.mpr fun {c} hc hc' => hlater c hc' (hgroup.suit_eq c hc)
    have hfirst : Enumerates group.cards (suitGroupings t req group.cards)
        (AreTractorsOf t req group.cards) := enumerates_suitGroupings hsort
    have ih := @ih hsound hsorted hsuits
    rw [List.flatMap_cons, ← Multiset.coe_add]
    constructor
    · intro h
      obtain ⟨g, hg, rfl⟩ := h
      obtain ⟨first, hmem, rest, hrest, rfl⟩ := isChoice_cons.mp hg
      obtain ⟨T₁, hT₁, heq₁⟩ := (hfirst.mem_iff first).mp (List.mem_map_of_mem hmem)
      obtain ⟨T₂, hT₂, heq₂⟩ := ih.mp ⟨rest, hrest, rfl⟩
      refine ⟨T₁ + T₂, hT₁.add hT₂, ?_⟩
      rw [withRest_add hdisjoint hT₁.fits hT₂.fits, heq₁, heq₂, Multiset.coe_add]
    · intro h
      obtain ⟨T, hT, rfl⟩ := h
      obtain ⟨T₁, T₂, rfl, hT₁, hT₂⟩ := hT.split hgroup.suit_eq hlater
      obtain ⟨first, hmem, heq₁⟩ := List.mem_map.mp ((hfirst.mem_iff _).mpr ⟨T₁, hT₁, rfl⟩)
      obtain ⟨rest, hrest, heq₂⟩ := ih.mpr ⟨T₂, hT₂, rfl⟩
      refine ⟨first ++ rest, isChoice_cons.mpr ⟨first, hmem, rest, hrest, rfl⟩, ?_⟩
      rw [withRest_add hdisjoint hT₁.fits hT₂.fits, ← heq₁, ← heq₂, Multiset.coe_add]

/-! ### All cards -/

theorem enumerates_groupings (t : Trump) (req : TractorRequirements) {cards : List Card}
    (hne : cards ≠ []) : Enumerates cards (groupings t req cards none) (AreTractorsOf t req cards) := by
  have hall : ((t.groupBySuit cards).flatMap Trump.SuitGroup.cards : Multiset Card) = cards :=
    Multiset.coe_eq_coe.mpr (t.groupBySuit_flatten_perm cards)
  have hsound : ∀ g ∈ t.groupBySuit cards, g.IsSound t := fun _ => Trump.isSound_of_mem_groupBySuit
  have hsuits : (t.groupBySuit cards).Pairwise fun g g' => g.suit ≠ g'.suit :=
    (t.pairwise_groupBySuit cards).imp fun hlt heq => by rw [heq] at hlt; omega
  have hsorted : ∀ g ∈ t.groupBySuit cards, g.cards.Pairwise fun a b => t.cardLe a b = true :=
    fun _ => Trump.pairwise_cards_of_mem_groupBySuit
  rw [groupings_eq hne]
  refine ⟨nodup_combineSuits ?_ (apart_suitGroupings hsound hsuits), fun units => ?_⟩
  · refine List.forall_mem_map.mpr fun group hgroup => ?_
    exact (enumerates_suitGroupings (hsorted group hgroup)).nodup
  · have hchoices := @exists_choice_iff t req _ hsound hsorted hsuits units
    rw [hall] at hchoices
    rw [← hchoices]
    simp only [List.mem_map, mem_combineSuits]

/-- A unit of a grouping holds copies of one card, or it is an allowed tractor. -/
theorem unit_of_mem_groupings {cards : List Card} {g : Grouping}
    (h : g ∈ groupings t req cards none) {u : TrickUnit} (hu : u ∈ g) :
    (∃ r, u = .repeated r) ∨ ∃ r, u = .tractor r ∧ r.IsAllowed t req := by
  have hne : cards ≠ [] := by
    rintro rfl
    simp [groupings, Trump.groupBySuit, Trump.sort, Trump.groupRuns] at h
  obtain ⟨T, hT, hg⟩ := ((enumerates_groupings t req hne).mem_iff g).mp (List.mem_map_of_mem h)
  have hmem : u ∈ withRest cards T := by
    rw [hg]
    exact Multiset.mem_coe.mpr hu
  rcases Multiset.mem_add.mp hmem with htractor | hrest
  · obtain ⟨r, hr, rfl⟩ := Multiset.mem_map.mp htractor
    exact Or.inr ⟨r, rfl, hT.allowed r hr⟩
  · obtain ⟨c, hc, rfl⟩ := mem_together.mp hrest
    exact Or.inl ⟨_, rfl⟩

theorem isRun_of_mem_groupings {cards : List Card} {g : Grouping}
    (h : g ∈ groupings t req cards none) {u : TrickUnit} (hu : u ∈ g) : t.IsRun u.members := by
  rcases unit_of_mem_groupings h hu with ⟨r, rfl⟩ | ⟨r, rfl, hr⟩
  · exact Trump.isRun_singleton r.card
  · exact hr.isRun

/-- Without a bound some cards are grouped in every way that takes allowed tractors, as many as the
cards suffice for, and puts all other copies of each card in one unit.  No two groupings have the same
units, and every grouping has exactly the cards. -/
theorem groupings_are_choices_of_tractors (t : Trump) (req : TractorRequirements)
    {cards : List Card} (hne : cards ≠ []) :
    ((groupings t req cards none).map Multiset.ofList).Nodup ∧
    (∀ units : Multiset TrickUnit, units ∈ (groupings t req cards none).map Multiset.ofList ↔
      ∃ T, AreTractorsOf t req cards T ∧ units = withRest cards T) ∧
    ∀ g ∈ groupings t req cards none, (Grouping.cards g).Perm cards := by
  have henum := enumerates_groupings t req hne
  refine ⟨henum.nodup, fun units => ?_, fun g hg => perm_of_mem_groupings hg⟩
  rw [henum.mem_iff units]
  simp only [eq_comm]

/-- Three pairs of twos, of which those of hearts are the highest under a trump of hearts and twos. -/
def pairsOfTwos : List Card :=
  [.suited .clubs .two, .suited .clubs .two, .suited .diamonds .two, .suited .diamonds .two,
    .suited .hearts .two, .suited .hearts .two]

/-- Both other suits' twos stand on the rung below the two of hearts. -/
def diamondsToHearts : Tractor :=
  ⟨2, [.suited .diamonds .two, .suited .hearts .two], Nat.two_pos, TractorRequirements.two_le_two⟩

theorem diamondsToHearts_found :
    pairsOfTwos ≠ [] ∧
      ({.tractor diamondsToHearts, .repeated ⟨.suited .clubs .two, 2, Nat.two_pos⟩} :
        Multiset TrickUnit) ∈
        (groupings ⟨some .hearts, some .two⟩ .standard pairsOfTwos none).map Multiset.ofList := by
  have hne : pairsOfTwos ≠ [] := by decide
  have htractor : AreTractorsOf ⟨some .hearts, some .two⟩ .standard pairsOfTwos
      {diamondsToHearts} := by
    refine ⟨fun r hr => ?_, by decide⟩
    rw [Multiset.mem_singleton.mp hr]
    exact ⟨Trump.isRun_cons_cons.mpr ⟨by decide, Trump.isRun_singleton _⟩, by decide, by decide⟩
  obtain ⟨-, hexact, -⟩ := groupings_are_choices_of_tractors ⟨some .hearts, some .two⟩ .standard hne
  exact ⟨hne, (hexact _).mpr ⟨{diamondsToHearts}, htractor, by decide⟩⟩

end TractorRules
