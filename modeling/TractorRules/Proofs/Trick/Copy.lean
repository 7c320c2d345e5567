import TractorRules.Proofs.Grouping.Enumeration
import TractorRules.Proofs.Format.Matches
import TractorRules.Proofs.Trick.Renege

/-!
# A copy of the lead

Cards can be matched against the shapes of every grouping that is found for them
(`Placement.of_grouping`), although groupings and matches are searched for in different ways.  So a
follower who holds the very cards that were led may play them, whatever else is in the hand
(`copy_of_lead_accepted`).
-/

namespace TractorRules

variable {t : Trump} {req : TractorRequirements} {cards : List Card} {g : Grouping}

/-! ### Groupings are matches -/

/-- The units of several cards in a grouping are placed where the grouping has them. -/
theorem Placement.of_grouping {policy : DrawPolicy} (hp : policy ≠ .longerTuplesProtected)
    (h : g ∈ groupings t req cards none) :
    Placement t policy cards (Shape.structured (g.map TrickUnit.shape)) (Grouping.structured g) where
  shapes_eq := by rw [Grouping.map_shape_structured]
  runs := fun _ hu => isRun_of_mem_groupings h (List.mem_of_mem_filter hu)
  disjoint := (Grouping.structured_cards_subperm g).trans (perm_of_mem_groupings h).subperm
  whole := fun hp' => absurd hp' hp

theorem canMatch_shapes_of_mem_groupings {policy : DrawPolicy}
    (hp : policy ≠ .longerTuplesProtected) (h : g ∈ groupings t req cards none) :
    canMatch t cards (g.map TrickUnit.shape) policy = true := by
  have hsize : Shape.size (g.map TrickUnit.shape) = cards.length := by
    rw [← Grouping.length_cards, (perm_of_mem_groupings h).length_eq]
  exact canMatch_iff.mpr ⟨hsize.le, _, Placement.of_grouping hp h⟩

theorem TrickFormat.canMatch_lead {f : TrickFormat} {policy : DrawPolicy}
    (hp : policy ≠ .longerTuplesProtected) (hf : ofLead t req cards = .ok f) :
    canMatch t cards f.units policy = true := by
  obtain ⟨-, -, -, g, hg, hunits⟩ := ofLead_eq_ok_iff.mp hf
  rw [hunits]
  exact canMatch_shapes_of_mem_groupings hp (List.mem_of_head? hg)

/-! ### Playing the same cards -/

namespace Trick

variable {k : Trick} {f : TrickFormat} {id : PlayerId} {queue : List PlayerId} {hands : Hands}
  {hand : Hand}

/-- The first row asks for the shapes of the lead, and the copy has them. -/
theorem canPlay_copy [RowOrder] (hlead : TrickFormat.ofLead k.trump req cards = .ok f)
    (hf : k.currentFormat = .ok (some f)) (hq : k.queue = id :: queue)
    (hh : hands.get id = .ok hand) (hsub : cards.Subperm hand.cards) :
    k.canPlay id hands cards .noProtections = .ok () := by
  obtain ⟨hne, hsuit, -⟩ := TrickFormat.ofLead_eq_ok_iff.mp hlead
  obtain ⟨f', hlead', -, -, hsize⟩ := @TrickFormat.ofLead_ok k.trump req cards f.suit hne hsuit
  obtain rfl : f = f' := Except.ok.inj (hlead.symm.trans hlead')
  have hpos : 1 ≤ f.size := by
    rw [hsize]
    exact List.length_pos_of_ne_nil hne
  have hheld : cards.Subperm (k.cardsOfSuit f.suit hand.cards) := by
    rw [← cardsOfSuit_eq_self (k := k) hsuit]
    exact cardsOfSuit_subperm hsub
  have hcopy : canMatch k.trump cards f.units .noProtections = true :=
    TrickFormat.canMatch_lead (by decide) hlead
  have hbinds : (f.decomposition .noProtections).find?
      (canMatch k.trump (k.cardsOfSuit f.suit hand.cards) · .noProtections) = some f.units := by
    rw [TrickFormat.decomposition_eq (by decide)]
    exact List.find?_cons_of_pos (canMatch_mono (by decide) hheld hcopy)
  rw [canPlay_suited hq hf hpos hh hheld hsize.symm, mapError_eq_ok, verdict_of_find hbinds]
  exact hcopy

end Trick

/-- Cards can be matched against the shapes of each of their groupings.  After a legal lead there is a
format, and a player who is to follow it and holds the cards that were led may play them, unless longer
tuples are protected. -/
theorem copy_of_lead_accepted [RowOrder] (t : Trump) (req : TractorRequirements)
    (cards : List Card) :
    (∀ g ∈ groupings t req cards none,
      matchShape t cards (g.map TrickUnit.shape) .noProtections none ≠ []) ∧
    ∀ (start : Trick) leader dealt policy, start.trump = t → start.currentFormat = .ok none →
      start.canPlay leader dealt cards policy = .ok () →
      ∃ f, TrickFormat.ofLead t req cards = .ok f ∧
        ∀ (k : Trick) id queue hands hand copy, k.trump = t → k.currentFormat = .ok (some f) →
          k.queue = id :: queue → hands.get id = .ok hand → cards.Subperm hand.cards →
          copy.Perm cards →
          k.canPlay id hands copy .noProtections = .ok () ∧
            k.canPlay id hands copy .noFormatBasedDraw = .ok () := by
  constructor
  · intro g hg
    exact matchShape_ne_nil_iff.mpr (canMatch_iff.mp (canMatch_shapes_of_mem_groupings (by decide) hg))
  · intro start leader dealt policy htrump hopen hstart
    obtain ⟨_, _, -, hne, -, -, hcase⟩ := Trick.canPlay_eq_ok_iff.mp hstart
    obtain ⟨suit, hsuit⟩ : ∃ suit, ∀ c ∈ cards, t.effectiveSuit c = suit := by
      rcases hcase with ⟨-, hcheck⟩ | ⟨f, hf, -⟩
      · rw [← htrump]
        exact Trick.checkLead_eq_ok_iff.mp hcheck
      · rw [hopen] at hf
        cases hf
    obtain ⟨f, hlead, -⟩ := @TrickFormat.ofLead_ok t req cards suit hne hsuit
    refine ⟨f, hlead, fun k id queue hands hand copy hk hf hq hh hsub hcopy => ?_⟩
    have hlead' : TrickFormat.ofLead k.trump req copy = .ok f := by
      rw [hk, TrickFormat.ofLead_perm hcopy.symm, hlead]
    have hplay := Trick.canPlay_copy hlead' hf hq hh (hcopy.subperm.trans hsub)
    exact ⟨hplay, Trick.canPlay_noFormat hplay⟩

def Rank.ace : Rank := ⟨14, Nat.le_of_ble_eq_true rfl, Nat.le_refl 14⟩

/-- Two players, before three pairs of twos are led, which are trump like all hearts. -/
def twosToLead : Trick where
  trump := ⟨some .hearts, some .two⟩
  queue := [0, 1]

def twosLed : Trick := { twosToLead with queue := [1], played := [⟨0, pairsOfTwos⟩] }

/-- The other player has the same twos, and a pair of aces that stands one rung below them. -/
def handsOfTwos : Hands :=
  .ofList [(0, .ofCards pairsOfTwos),
    (1, .ofCards (.suited .hearts .ace :: .suited .hearts .ace :: pairsOfTwos))]

section

open scoped RowOrder

theorem twos_answered_by_twos :
    twosToLead.canPlay 0 handsOfTwos pairsOfTwos .noProtections = .ok () ∧
      twosLed.canPlay 1 handsOfTwos pairsOfTwos.reverse .noProtections = .ok () ∧
      twosLed.canPlay 1 handsOfTwos pairsOfTwos.reverse .noFormatBasedDraw = .ok () := by
  have hstart : twosToLead.canPlay 0 handsOfTwos pairsOfTwos .noProtections = .ok () := rfl
  obtain ⟨-, hcopies⟩ := copy_of_lead_accepted twosToLead.trump .standard pairsOfTwos
  obtain ⟨f, hlead, haccepted⟩ := hcopies twosToLead 0 handsOfTwos .noProtections rfl rfl hstart
  have hf : twosLed.currentFormat = .ok (some f) := by
    show (TrickFormat.ofLead twosToLead.trump .standard pairsOfTwos).map some = .ok (some f)
    rw [hlead]
    rfl
  refine ⟨hstart, haccepted twosLed 1 [] handsOfTwos _ _ rfl hf rfl rfl ?_ ?_⟩
  · decide
  · exact List.reverse_perm pairsOfTwos

end

end TractorRules
