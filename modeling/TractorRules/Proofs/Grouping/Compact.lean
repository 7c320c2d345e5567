import TractorRules.Proofs.Grouping.Enumeration
import Mathlib.Order.Bounds.Basic

/-!
# The most compact grouping

The format of a lead is that of the first grouping, and groupings come by their number of units.  Of
all ways to divide the cards into units, those that are not enumerated leave copies of a card in
several units besides the tractors.  Putting them together makes no more units
(`IsDivision.card_withRest_le`), so that no way has fewer units than the format
(`lead_format_is_most_compact`).
-/

namespace TractorRules

variable {t : Trump} {req : TractorRequirements} {cards : Multiset Card} {units : Multiset TrickUnit}

/-! ### Divisions -/

/-- Units that make up some cards: allowed tractors, and copies of a card in as many units as one
likes. -/
structure IsDivision (t : Trump) (req : TractorRequirements) (cards : Multiset Card)
    (units : Multiset TrickUnit) : Prop where
  cards_eq : cardsOf units = cards
  allowed : ∀ r, .tractor r ∈ units → r.IsAllowed t req

def repeatedOf (units : Multiset TrickUnit) : Multiset Repeated :=
  units.filterMap fun u =>
    match u with
    | .repeated r => some r
    | .tractor _ => none

theorem tractors_add_repeated (units : Multiset TrickUnit) :
    (tractorsOf units).map .tractor + (repeatedOf units).map .repeated = units := by
  induction units using Multiset.induction_on with
  | empty => rfl
  | cons u units ih =>
    cases u with
    | repeated r =>
      have htractors : tractorsOf (.repeated r ::ₘ units) = tractorsOf units :=
        Multiset.filterMap_cons_none _ _ rfl
      have hrepeated : repeatedOf (.repeated r ::ₘ units) = r ::ₘ repeatedOf units :=
        Multiset.filterMap_cons_some _ _ _ rfl
      rw [htractors, hrepeated, Multiset.map_cons, Multiset.add_cons, ih]
    | tractor r =>
      have htractors : tractorsOf (.tractor r ::ₘ units) = r ::ₘ tractorsOf units :=
        Multiset.filterMap_cons_some _ _ _ rfl
      have hrepeated : repeatedOf (.tractor r ::ₘ units) = repeatedOf units :=
        Multiset.filterMap_cons_none _ _ rfl
      rw [htractors, hrepeated, Multiset.map_cons, Multiset.cons_add, ih]

theorem mem_tractorsOf {r : Tractor} : r ∈ tractorsOf units ↔ .tractor r ∈ units := by
  rw [tractorsOf, Multiset.mem_filterMap]
  constructor
  · intro h
    obtain ⟨u, hu, hr⟩ := h
    cases u with
    | repeated r' => cases hr
    | tractor r' => rwa [← Option.some.inj hr]
  · intro h
    exact ⟨_, h, rfl⟩

/-- There is at most one unit for each card, and each card is in some unit. -/
theorem card_together_le (units : Multiset Repeated) :
    (together (cardsOf (units.map .repeated))).card ≤ units.card := by
  have hsub : (cardsOf (units.map .repeated)).dedup ≤ units.map Repeated.card := by
    rw [Multiset.le_iff_subset (Multiset.nodup_dedup _)]
    intro c hc
    obtain ⟨u, hu, hmem⟩ := mem_cardsOf.mp (Multiset.mem_dedup.mp hc)
    obtain ⟨r, hr, rfl⟩ := Multiset.mem_map.mp hu
    rw [List.mem_singleton.mp hmem]
    exact Multiset.mem_map_of_mem _ hr
  have hpiles : (together (cardsOf (units.map .repeated))).card ≤
      (cardsOf (units.map .repeated)).dedup.card := by
    unfold together
    generalize (cardsOf (units.map .repeated)).dedup = distinct
    induction distinct using Quotient.inductionOn with
    | h distinct => exact List.length_filterMap_le _ _
  calc (together (cardsOf (units.map .repeated))).card
      ≤ (cardsOf (units.map .repeated)).dedup.card := hpiles
    _ ≤ (units.map Repeated.card).card := Multiset.card_le_card hsub
    _ = units.card := Multiset.card_map _ _

namespace IsDivision

theorem areTractorsOf (h : IsDivision t req cards units) :
    AreTractorsOf t req cards (tractorsOf units) := by
  constructor
  · intro r hr
    exact h.allowed r (mem_tractorsOf.mp hr)
  · rw [← h.cards_eq]
    nth_rewrite 2 [← tractors_add_repeated units]
    rw [cardsOf_add]
    exact Multiset.le_add_right _ _

/-- All copies that the tractors leave of a card need one unit only. -/
theorem card_withRest_le (h : IsDivision t req cards units) :
    (withRest cards (tractorsOf units)).card ≤ units.card := by
  have hrest : cards - cardsOf ((tractorsOf units).map .tractor) =
      cardsOf ((repeatedOf units).map .repeated) := by
    rw [← h.cards_eq]
    nth_rewrite 1 [← tractors_add_repeated units]
    rw [cardsOf_add, add_tsub_cancel_left]
  have hunits : units.card = (tractorsOf units).card + (repeatedOf units).card := by
    nth_rewrite 1 [← tractors_add_repeated units]
    rw [Multiset.card_add, Multiset.card_map, Multiset.card_map]
  rw [withRest, hrest, Multiset.card_add, Multiset.card_map, hunits]
  exact Nat.add_le_add_left (card_together_le _) _

end IsDivision

theorem AreTractorsOf.isDivision {T : Multiset Tractor} (h : AreTractorsOf t req cards T) :
    IsDivision t req cards (withRest cards T) := by
  constructor
  · exact cardsOf_withRest h.fits
  · intro r hr
    apply h.allowed
    rwa [← mem_tractorsOf, tractorsOf_withRest] at hr

/-! ### The first grouping -/

/-- The groupings are divisions of the cards, and some grouping has as few units as any division. -/
theorem length_first_grouping_isLeast {cards : List Card} (hne : cards ≠ []) {first : Grouping}
    (hfirst : (groupings t req cards none).head? = some first) :
    IsDivision t req cards first ∧
      IsLeast {n | ∃ units, IsDivision t req cards units ∧ units.card = n} first.length := by
  have henum := enumerates_groupings t req hne
  obtain ⟨rest, hgroupings⟩ := List.head?_eq_some_iff.mp hfirst
  have hmem : first ∈ groupings t req cards none := by
    rw [hgroupings]
    exact List.mem_cons_self
  have hdivision : IsDivision t req cards first := by
    obtain ⟨T, hT, heq⟩ := (henum.mem_iff first).mp (List.mem_map_of_mem hmem)
    rw [← heq]
    exact hT.isDivision
  refine ⟨hdivision, ⟨first, hdivision, Multiset.coe_card first⟩, fun n hn => ?_⟩
  obtain ⟨units, hunits, rfl⟩ := hn
  obtain ⟨g, hg, heq⟩ := List.mem_map.mp
    ((henum.mem_iff _).mpr ⟨tractorsOf units, hunits.areTractorsOf, rfl⟩)
  have hle : first.length ≤ g.length := by
    have hpairwise := pairwise_length_groupings t req cards
    rw [hgroupings] at hg hpairwise
    rcases List.mem_cons.mp hg with rfl | hg
    · exact Nat.le_refl _
    · exact (List.pairwise_cons.mp hpairwise).1 g hg
  calc first.length ≤ g.length := hle
    _ = (withRest cards (tractorsOf units)).card := by rw [← heq, Multiset.coe_card]
    _ ≤ units.card := hunits.card_withRest_le

/-- Cards of one effective suit have a format of that suit and of their size.  Its units are the
shapes of a division of the cards, and no division has fewer. -/
theorem TrickFormat.lead_format_is_most_compact (t : Trump) (req : TractorRequirements)
    {cards : List Card} {suit : EffectiveSuit} (hne : cards ≠ [])
    (hsuit : ∀ c ∈ cards, t.effectiveSuit c = suit) :
    ∃ f, ofLead t req cards = .ok f ∧ (∀ c ∈ cards, t.effectiveSuit c = f.suit) ∧ f.trump = t ∧
      f.size = cards.length ∧
      (∃ units, IsDivision t req cards units ∧ units.map TrickUnit.shape = f.units) ∧
      IsLeast {n | ∃ units, IsDivision t req cards units ∧ units.card = n} f.units.length := by
  obtain ⟨f, hf, -, -, hsize⟩ := @ofLead_ok t req cards suit hne hsuit
  obtain ⟨-, hfsuit, htrump, first, hfirst, hunits⟩ := ofLead_eq_ok_iff.mp hf
  obtain ⟨hdivision, hleast⟩ := length_first_grouping_isLeast hne hfirst
  refine ⟨f, hf, hfsuit, htrump, hsize, ⟨first, hdivision, ?_⟩, ?_⟩
  · rw [hunits]
    rfl
  · rwa [hunits, List.length_map]

/-- Three pairs of twos make at most two units: a run from a lower pair to the highest one, and the
other lower pair. -/
theorem TrickFormat.twos_need_two_units :
    pairsOfTwos ≠ [] ∧
      (∀ c ∈ pairsOfTwos, Trump.effectiveSuit ⟨some .hearts, some .two⟩ c = .trump) ∧
      ∃ f, ofLead ⟨some .hearts, some .two⟩ .standard pairsOfTwos = .ok f ∧ f.size = 6 ∧
        f.units.length ≤ 2 := by
  have hne : pairsOfTwos ≠ [] := by decide
  have hsuit : ∀ c ∈ pairsOfTwos, Trump.effectiveSuit ⟨some .hearts, some .two⟩ c = .trump := by
    decide
  have hdivision : IsDivision ⟨some .hearts, some .two⟩ .standard pairsOfTwos
      {.tractor diamondsToHearts, .repeated ⟨.suited .clubs .two, 2, Nat.two_pos⟩} := by
    refine ⟨by decide, fun r hr => ?_⟩
    obtain rfl : r = diamondsToHearts := by simpa using hr
    exact ⟨Trump.isRun_cons_cons.mpr ⟨by decide, Trump.isRun_singleton _⟩, by decide, by decide⟩
  obtain ⟨f, hf, -, -, hsize, -, hleast⟩ :=
    lead_format_is_most_compact ⟨some .hearts, some .two⟩ .standard hne hsuit
  exact ⟨hne, hsuit, f, hf, hsize, hleast.2 ⟨_, hdivision, rfl⟩⟩

end TractorRules
