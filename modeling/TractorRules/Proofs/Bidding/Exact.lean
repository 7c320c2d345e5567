import TractorRules.Proofs.Bidding.Climb
import TractorRules.Proofs.Bidding.Order

/-!
# Exactly the valid bids

The valid bids are all bids that the rules ask for, in climbing order, and the bids of other epochs play
no part in them (`valid_bids_are_offers`).
-/

namespace TractorRules.Auction

variable {a : Auction} {history : List Bid} {id : PlayerId} {epoch : Int} {bidder : Player}
  {hand : Hand}

theorem exists_validBids (hdecks : 1 ≤ a.decks)
    (hbidder : findPlayer a.players (a.landlord.getD id) = .ok bidder)
    (hhand : a.hands.get id = .ok hand) (history : List Bid) (epoch : Int) :
    ∃ bids, a.validBids history id epoch = .ok bids ∧ bids.Pairwise Bid.Climbs :=
  ⟨_, validBids_eq_ok_iff.mpr ⟨hdecks, bidder, hand, hbidder, hhand, rfl⟩,
    pairwise_climbs_offers _ id epoch⟩

/-! ### Other epochs -/

theorem inEpoch_between {others : List Bid} (hothers : ∀ b ∈ others, b.epoch ≠ epoch)
    (before after : List Bid) :
    inEpoch (before ++ others ++ after) epoch = inEpoch (before ++ after) epoch := by
  have hnone : others.filter (·.epoch == epoch) = [] :=
    List.filter_eq_nil_iff.mpr fun b hb => by simpa using hothers b hb
  unfold inEpoch
  rw [List.filter_append, List.filter_append, List.filter_append, hnone, List.append_nil]

theorem validBids_congr {history' : List Bid} (h : inEpoch history epoch = inEpoch history' epoch) :
    a.validBids history id epoch = a.validBids history' id epoch := by
  rw [validBids_with_hands a.hands history id epoch, validBids_with_hands a.hands history' id epoch, h]

/-- A player with a hand, where the landlord is seated or, without one, the player, may make exactly
the bids that the rules ask for.  They are stamped with the player and the epoch, each climbs above all
before it, and bids of other epochs can be put into the history, or left out of it, anywhere. -/
theorem valid_bids_are_offers (hdecks : 1 ≤ a.decks)
    (hbidder : findPlayer a.players (a.landlord.getD id) = .ok bidder)
    (hhand : a.hands.get id = .ok hand) (history : List Bid) (epoch : Int) :
    ∃ bids, a.validBids history id epoch = .ok bids ∧
      (∀ b, b ∈ bids ↔ b.id = id ∧ b.epoch = epoch ∧
        a.IsOffer bidder.level hand (inEpoch history epoch) b) ∧
      bids.Pairwise Bid.Climbs ∧
      ∀ before others after, (∀ b ∈ others, b.epoch ≠ epoch) →
        a.validBids (before ++ others ++ after) id epoch =
          a.validBids (before ++ after) id epoch := by
  obtain ⟨bids, hbids, hclimbs⟩ := exists_validBids hdecks hbidder hhand history epoch
  refine ⟨bids, hbids, fun b => mem_validBids_iff hbids hbidder hhand, hclimbs, ?_⟩
  intro before others after hothers
  exact validBids_congr (inEpoch_between hothers before after)

/-- The jokers beat the club, but its bidder may show the other one and be level with them. -/
theorem overbidClub_answered :
    (1 : Int) ≤ (clubsAgainstJokers .reinforceWhileEquivalent).decks ∧
      ∃ bids, (clubsAgainstJokers .reinforceWhileEquivalent).validBids overbidClub 1 0 = .ok bids ∧
        ⟨1, .suited .clubs .two, 2, 0⟩ ∈ bids ∧ ⟨1, .suited .clubs .two, 1, 0⟩ ∉ bids ∧
        (clubsAgainstJokers .reinforceWhileEquivalent).validBids
          [⟨1, .suited .clubs .two, 1, 0⟩, ⟨2, .joker .big, 2, 0⟩] 1 0 = .ok bids := by
  have hdecks : (1 : Int) ≤ (clubsAgainstJokers .reinforceWhileEquivalent).decks := by decide
  have hhand : (clubsAgainstJokers .reinforceWhileEquivalent).hands.get 1 =
      .ok (.ofCards [.suited .clubs .two, .suited .clubs .two]) := rfl
  obtain ⟨bids, hbids, hmem, -, hothers⟩ := valid_bids_are_offers hdecks rfl hhand overbidClub 0
  have hreinforces : Reinforces (inEpoch overbidClub 0) ⟨2, .joker .big, 2, 0⟩
      ⟨1, .suited .clubs .two, 2, 0⟩ := ⟨by decide, by decide, _, rfl, rfl, by decide⟩
  refine ⟨hdecks, bids, hbids, ?_, ?_, ?_⟩
  · exact (hmem _).mpr ⟨rfl, rfl, by decide, by decide, .ofLevel rfl, .reinforces rfl rfl hreinforces⟩
  · intro h
    obtain ⟨-, -, hoffer⟩ := (hmem _).mp h
    have hmay := (mayBid_iff (n := 1) rfl).mpr hoffer.entitled
    revert hmay
    decide
  · exact (hothers [⟨1, .suited .clubs .two, 1, 0⟩] [⟨2, .joker .big, 2, 1⟩]
      [⟨2, .joker .big, 2, 0⟩] (by decide)).symm.trans hbids

end TractorRules.Auction
