import TractorRules.Proofs.Bidding.Offer
import Mathlib.Data.List.Chain

/-!
# Bids climb

What one more bid does to the bids of its epoch (`Run.inEpoch`) and what follows for all of them: the
counts never fall, and where no bid may be made for reaching the best one only, the bids climb
strictly (`bids_climb`).
-/

namespace TractorRules.Auction

/-- The histories that bidding leads to: any player bids in any epoch, and each bid is a valid one. -/
inductive Run (a : Auction) : List Bid → Prop where
  | start : Run a []
  | bid {history bids : List Bid} {id : PlayerId} {epoch : Int} {b : Bid} :
      Run a history → a.validBids history id epoch = .ok bids → b ∈ bids → Run a (history ++ [b])

/-- What holds of a valid bid, given the earlier bids of its epoch. -/
structure MayFollow (a : Auction) (current : List Bid) (b : Bid) : Prop where
  count_pos : 1 ≤ b.count
  held : ∃ hand, a.hands.get b.id = .ok hand ∧ b.count ≤ hand.count b.card
  beats : ∀ best, current.getLast? = some best →
    best.Climbs b ∧ (a.bidPolicy = .greaterLength → best.count < b.count) ∨
      a.reinforcement = .reinforceWhileEquivalent ∧ Reinforces current best b

/-- Bids of one epoch, each of which may follow the earlier ones. -/
inductive Bidding (a : Auction) : List Bid → Prop where
  | start : Bidding a []
  | bid {current : List Bid} {b : Bid} :
      Bidding a current → MayFollow a current b → Bidding a (current ++ [b])

variable {a : Auction} {history current bids : List Bid} {id : PlayerId} {epoch : Int} {b : Bid}

theorem mayFollow_of_validBids (h : a.validBids history id epoch = .ok bids) (hb : b ∈ bids) :
    b.epoch = epoch ∧ MayFollow a (inEpoch history epoch) b := by
  obtain ⟨-, bidder, hand, hbidder, hhand, -⟩ := validBids_eq_ok_iff.mp h
  obtain ⟨rfl, rfl, hoffer⟩ := (mem_validBids_iff h hbidder hhand).mp hb
  exact ⟨rfl, hoffer.count_pos, ⟨hand, hhand, hoffer.held⟩,
    fun best hbest => hoffer.entitled.climbs_or_reinforces hbest⟩

/-- A card of the bidder's hand that may be bid goes on top of the history. -/
theorem Run.offer {bidder : Player} {hand : Hand} {card : Card} {n : Nat} (h : a.Run history)
    (hdecks : 1 ≤ a.decks) (hbidder : findPlayer a.players (a.landlord.getD id) = .ok bidder)
    (hhand : a.hands.get id = .ok hand) (hcand : (card, n) ∈ a.candidates hand bidder.level)
    (hmay : a.mayBid (inEpoch history epoch) id card n = true) :
    a.Run (history ++ [⟨id, card, n, epoch⟩]) := by
  obtain ⟨bids, hvalid⟩ : ∃ bids, a.validBids history id epoch = .ok bids :=
    ⟨_, validBids_eq_ok_iff.mpr ⟨hdecks, bidder, hand, hbidder, hhand, rfl⟩⟩
  have hmem : ⟨id, card, n, epoch⟩ ∈ bids :=
    (mem_of_validBids hvalid).mpr ⟨bidder, hand, n, hbidder, hhand, hcand, hmay, rfl⟩
  exact h.bid hvalid hmem

theorem inEpoch_append (history : List Bid) (b : Bid) (epoch : Int) :
    inEpoch (history ++ [b]) epoch =
      if b.epoch = epoch then inEpoch history epoch ++ [b] else inEpoch history epoch := by
  unfold inEpoch
  rw [List.filter_append]
  by_cases he : b.epoch = epoch
  · rw [if_pos he, List.filter_cons_of_pos (by simpa using he), List.filter_nil]
  · rw [if_neg he, List.filter_cons_of_neg (by simpa using he), List.filter_nil, List.append_nil]

/-- Whatever is bid in other epochs, the bids of an epoch follow each other. -/
theorem Run.inEpoch (h : a.Run history) (epoch : Int) : a.Bidding (inEpoch history epoch) := by
  induction h with
  | start => exact .start
  | bid _ hvalid hb ih =>
    obtain ⟨he, hfollow⟩ := mayFollow_of_validBids hvalid hb
    rw [inEpoch_append]
    split
    · rename_i heq
      obtain rfl := he.symm.trans heq
      exact ih.bid hfollow
    · exact ih

theorem Run.held (h : a.Run history) :
    ∀ b ∈ history, ∃ hand, a.hands.get b.id = .ok hand ∧ b.count ≤ hand.count b.card := by
  induction h with
  | start => simp
  | bid _ hvalid hb ih =>
    intro b' hb'
    rcases List.mem_append.mp hb' with hold | hnew
    · exact ih b' hold
    · rw [List.mem_singleton.mp hnew]
      exact (mayFollow_of_validBids hvalid hb).2.held

/-- A relation that holds from the best bid to every bid that may follow holds from each bid to all
later ones. -/
theorem Bidding.pairwise {R : Bid → Bid → Prop} (htrans : ∀ x y z, R x y → R y z → R x z)
    (hstep : ∀ current best b, MayFollow a current b → current.getLast? = some best → R best b)
    (h : a.Bidding current) : current.Pairwise R := by
  have : Trans R R R := ⟨fun {x y z} => htrans x y z⟩
  refine List.isChain_iff_pairwise.mp ?_
  induction h with
  | start => exact .nil
  | bid hbids hfollow ih =>
    refine ih.append (.singleton _) ?_
    intro best hbest b' hb'
    obtain rfl := Option.some.inj hb'
    exact hstep _ best _ hfollow hbest

theorem Bidding.pairwise_count (h : a.Bidding current) :
    current.Pairwise fun b b' => b.count ≤ b'.count := by
  refine h.pairwise (fun _ _ _ => Int.le_trans) ?_
  intro current best b hfollow hbest
  rcases hfollow.beats best hbest with ⟨hclimbs, -⟩ | ⟨-, -, hreach, -⟩
  · exact hclimbs.count_le
  · exact hreach

theorem Bidding.pairwise_climbs (hr : a.reinforcement ≠ .reinforceWhileEquivalent)
    (h : a.Bidding current) : current.Pairwise Bid.Climbs := by
  refine h.pairwise (fun _ _ _ => Bid.Climbs.trans) ?_
  intro current best b hfollow hbest
  rcases hfollow.beats best hbest with ⟨hclimbs, -⟩ | ⟨hequivalent, -⟩
  · exact hclimbs
  · exact absurd hequivalent hr

theorem Bidding.pairwise_count_lt (hr : a.reinforcement ≠ .reinforceWhileEquivalent)
    (hp : a.bidPolicy = .greaterLength) (h : a.Bidding current) :
    current.Pairwise fun b b' => b.count < b'.count := by
  refine h.pairwise (fun _ _ _ => Int.lt_trans) ?_
  intro current best b hfollow hbest
  rcases hfollow.beats best hbest with ⟨-, hmore⟩ | ⟨hequivalent, -⟩
  · exact hmore hp
  · exact absurd hequivalent hr

theorem nodup_of_pairwise_climbs (h : current.Pairwise Bid.Climbs) :
    (current.map fun b => (b.card, b.count)).Nodup := by
  refine List.pairwise_map.mpr (h.imp ?_)
  intro b b' hclimbs heq
  obtain ⟨hcard, hcount⟩ := Prod.mk.inj heq
  exact Bid.not_climbs_of_eq hcard hcount hclimbs

/-- In every epoch of every auction the counts never fall.  Unless an overbid player may add copies to
reach the best bid, each bid shows more copies than all earlier ones or as many of a higher card, so
that no card is bid twice with one count; and if only more copies beat a bid, each shows more.  Nobody
bids more copies than the hand holds. -/
theorem bids_climb (h : a.Run history) :
    (∀ epoch, (inEpoch history epoch).Pairwise fun b b' => b.count ≤ b'.count) ∧
    (a.reinforcement ≠ .reinforceWhileEquivalent → ∀ epoch,
      (inEpoch history epoch).Pairwise Bid.Climbs ∧
      ((inEpoch history epoch).map fun b => (b.card, b.count)).Nodup ∧
      (a.bidPolicy = .greaterLength →
        (inEpoch history epoch).Pairwise fun b b' => b.count < b'.count)) ∧
    ∀ b ∈ history, ∃ hand, a.hands.get b.id = .ok hand ∧ b.count ≤ hand.count b.card := by
  refine ⟨fun epoch => (h.inEpoch epoch).pairwise_count, ?_, h.held⟩
  intro hr epoch
  have hclimbs := (h.inEpoch epoch).pairwise_climbs hr
  refine ⟨hclimbs, nodup_of_pairwise_climbs hclimbs, ?_⟩
  intro hp
  exact (h.inEpoch epoch).pairwise_count_lt hr hp

/-- Two players at the level of twos; one holds two clubs of that level, the other two big jokers. -/
def clubsAgainstJokers (reinforcement : BidReinforcementPolicy) : Auction where
  hands := .ofList [(1, .ofCards [.suited .clubs .two, .suited .clubs .two]),
    (2, .ofCards [.joker .big, .joker .big])]
  players := [⟨1, .ofString "North", some .two⟩, ⟨2, .ofString "South", some .two⟩]
  landlord := none
  reinforcement := reinforcement

/-- A club, overbid by the jokers; and the jokers first in another epoch. -/
def overbidClub : List Bid :=
  [⟨1, .suited .clubs .two, 1, 0⟩, ⟨2, .joker .big, 2, 1⟩, ⟨2, .joker .big, 2, 0⟩]

theorem run_overbidClub : (clubsAgainstJokers .reinforceWhileWinning).Run overbidClub := by
  have hclub : (clubsAgainstJokers .reinforceWhileWinning).Run [⟨1, .suited .clubs .two, 1, 0⟩] :=
    Run.start.offer (by decide) rfl rfl (by decide) rfl
  have hother : (clubsAgainstJokers .reinforceWhileWinning).Run
      [⟨1, .suited .clubs .two, 1, 0⟩, ⟨2, .joker .big, 2, 1⟩] :=
    hclub.offer (by decide) rfl rfl (by decide) rfl
  exact hother.offer (by decide) rfl rfl (by decide) rfl

theorem overbidClub_climbs :
    (clubsAgainstJokers .reinforceWhileWinning).Run overbidClub ∧
      (inEpoch overbidClub 0).length = 2 ∧ (inEpoch overbidClub 0).Pairwise Bid.Climbs := by
  obtain ⟨-, hclimbs, -⟩ := bids_climb run_overbidClub
  exact ⟨run_overbidClub, rfl, (hclimbs (by decide) 0).1⟩

end TractorRules.Auction
