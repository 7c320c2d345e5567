import TractorRules.Proofs.Bidding.Offer
import TractorRules.Proofs.Trump.Order

/-!
# The order of valid bids

No two bids on offer tie, since all suited ones are of the bid level (`offerLe_antisymm`).  So the
valid bids climb (`pairwise_climbs_offers`), and they come in one order, in whatever order the bidder's
hand lists its cards (`validBids_of_held_eq`).
-/

namespace TractorRules

/-- Whether a card can be bid at a level at all. -/
def Card.IsOfLevel (level : Option Rank) : Card → Prop
  | .suited _ r => level = some r
  | .joker _ => True

theorem Card.eq_of_bidRank_eq {level : Option Rank} {c d : Card} (hc : c.IsOfLevel level)
    (hd : d.IsOfLevel level) (h : c.bidRank = d.bidRank) : c = d := by
  cases c with
  | suited s r =>
    cases d with
    | suited s' r' =>
      obtain rfl : r = r' := Option.some.inj (hc.symm.trans hd)
      rw [Suit.index_injective h]
    | joker j =>
      have hs := s.index_lt
      simp only [bidRank] at h
      omega
  | joker j =>
    cases d with
    | suited s r =>
      have hs := s.index_lt
      simp only [bidRank] at h
      omega
    | joker j' => cases j <;> cases j' <;> first | rfl | simp [bidRank, Joker.index] at h

namespace Auction

variable {a : Auction} {hand hand' : Hand} {level : Option Rank} {x y z : Card × Nat}

theorem isOfLevel_of_mem_candidates (h : x ∈ a.candidates hand level) : x.1.IsOfLevel level := by
  obtain ⟨⟨c, held⟩, -, hx⟩ := List.mem_flatMap.mp h
  cases c with
  | joker j =>
    obtain ⟨n, -, rfl⟩ := List.mem_map.mp hx
    exact trivial
  | suited s r =>
    simp only at hx
    split at hx
    · rename_i hlevel
      obtain ⟨n, -, rfl⟩ := List.mem_map.mp hx
      exact hlevel
    · simp at hx

theorem nodup_countsOf (a : Auction) (level : Option Rank) (held : Nat) (card : Card) :
    (a.countsOf level held card).Nodup := by
  have hbetween (low high : Nat) : (numbersBetween low high).Nodup := List.nodup_range'
  cases card with
  | suited s r =>
    show (if level = some r then numbersBetween 1 held else []).Nodup
    split
    · exact hbetween 1 held
    · exact List.nodup_nil
  | joker j =>
    show (a.jokerPolicy.counts j held a.decks.toNat).Nodup
    unfold JokerBidPolicy.counts
    split
    · exact hbetween ..
    · exact hbetween ..
    · exact hbetween ..
    · exact hbetween ..
    · exact List.nodup_nil

theorem offerLe_iff :
    offerLe x y = true ↔ x.2 < y.2 ∨ x.2 = y.2 ∧ x.1.bidRank ≤ y.1.bidRank := by
  simp [offerLe]

theorem offerLe_trans (x y z : Card × Nat) (hxy : offerLe x y = true) (hyz : offerLe y z = true) :
    offerLe x z = true := by
  rw [offerLe_iff] at *
  omega

theorem offerLe_total (x y : Card × Nat) : (offerLe x y || offerLe y x) = true := by
  rw [Bool.or_eq_true, offerLe_iff, offerLe_iff]
  omega

theorem offerLe_antisymm (hx : x.1.IsOfLevel level) (hy : y.1.IsOfLevel level)
    (hxy : offerLe x y = true) (hyx : offerLe y x = true) : x = y := by
  rw [offerLe_iff] at hxy hyx
  have hrank : x.1.bidRank = y.1.bidRank := by omega
  have hcount : x.2 = y.2 := by omega
  exact Prod.ext (Card.eq_of_bidRank_eq hx hy hrank) hcount

theorem offers_eq_of_perm (h : hand.cards.Perm hand'.cards) (may : Card × Nat → Bool) :
    ((a.candidates hand level).filter may).mergeSort offerLe =
      ((a.candidates hand' level).filter may).mergeSort offerLe := by
  have hperm : ((a.candidates hand level).filter may).Perm ((a.candidates hand' level).filter may) :=
    ((Hand.entries_perm h).flatMap_right _).filter may
  have hlevel {x : Card × Nat} (hx : x ∈ (a.candidates hand level).filter may) :
      x.1.IsOfLevel level := isOfLevel_of_mem_candidates (List.mem_of_mem_filter hx)
  exact mergeSort_eq_of_perm offerLe_trans offerLe_total
    (fun x y hx hy => offerLe_antisymm (hlevel hx) (hlevel hy)) hperm

theorem nodup_candidates (a : Auction) (hand : Hand) (level : Option Rank) :
    (a.candidates hand level).Nodup := by
  rw [candidates_eq, List.nodup_flatMap]
  constructor
  · intro e _
    have hcounts : (a.countsOf level e.2 e.1).Nodup := nodup_countsOf a level e.2 e.1
    exact hcounts.map (Prod.mk_right_injective e.1)
  · -- the offers of two entries show different cards
    apply (List.pairwise_map.mp hand.nodup).imp
    intro e e' hne x hx hx'
    obtain ⟨n, -, rfl⟩ := List.mem_map.mp hx
    obtain ⟨n', -, heq⟩ := List.mem_map.mp hx'
    exact hne (congrArg Prod.fst heq).symm

theorem pairwise_climbs_offers (may : Card × Nat → Bool) (id : PlayerId) (epoch : Int) :
    ((((a.candidates hand level).filter may).mergeSort offerLe).map
      fun (card, n) => (⟨id, card, n, epoch⟩ : Bid)).Pairwise Bid.Climbs := by
  have hperm := List.mergeSort_perm ((a.candidates hand level).filter may) offerLe
  have hsorted := List.pairwise_mergeSort offerLe_trans offerLe_total
    ((a.candidates hand level).filter may)
  have hnodup := hperm.nodup_iff.mpr ((nodup_candidates a hand level).filter may)
  have hlevel {x : Card × Nat} (hx : x ∈ ((a.candidates hand level).filter may).mergeSort offerLe) :
      x.1.IsOfLevel level :=
    isOfLevel_of_mem_candidates (List.mem_of_mem_filter (hperm.mem_iff.mp hx))
  apply List.pairwise_map.mpr
  apply (hsorted.and hnodup).imp_of_mem
  intro x y hx hy hxy
  rcases offerLe_iff.mp hxy.1 with hless | ⟨hcount, hrank⟩
  · exact Or.inl (Int.ofNat_lt.mpr hless)
  · have hne : x.1.bidRank ≠ y.1.bidRank := fun heq =>
      hxy.2 (Prod.ext (Card.eq_of_bidRank_eq (hlevel hx) (hlevel hy) heq) hcount)
    exact Or.inr ⟨congrArg Int.ofNat hcount, Nat.lt_of_le_of_ne hrank hne⟩

theorem validBids_with_hands (hands : Hands) (history : List Bid) (id : PlayerId) (epoch : Int) :
    ({ a with hands } : Auction).validBids history id epoch =
      if a.decks < 1 then .error (.deckCount a.decks)
      else findPlayer a.players (a.landlord.getD id) >>= fun bidder =>
        hands.get id >>= fun hand =>
          .ok ((((a.candidates hand bidder.level).filter fun (card, n) =>
            a.mayBid (inEpoch history epoch) id card n).mergeSort offerLe).map
              fun (card, n) => ⟨id, card, n, epoch⟩) := by
  unfold validBids
  split
  · rfl
  · rfl

/-- The valid bids depend on the cards of the bidder alone, and on no other hand. -/
theorem validBids_of_held_eq {hands : Hands} {id : PlayerId} (h : a.hands.held id = hands.held id)
    (history : List Bid) (epoch : Int) :
    a.validBids history id epoch = ({ a with hands } : Auction).validBids history id epoch := by
  rw [validBids_with_hands hands]
  refine (validBids_with_hands a.hands history id epoch).trans ?_
  rcases Hands.get_of_held_eq h with ⟨hnone, hnone'⟩ | ⟨hand, hand', hget, hget', hperm⟩
  · rw [hnone, hnone']
  · rw [hget, hget']
    simp only [bind, Except.bind, offers_eq_of_perm hperm]

end Auction

end TractorRules
