import TractorRules.Proofs.Bidding.Exact
import Mathlib.Logic.Relation

/-!
# Wider hands and policies

More cards or a wider policy never take a bid away (`wider_auction_keeps_bids`).  Each step towards a
wider auction makes one thing wider and keeps the rest (`WidensTo`); it keeps every offer
(`WidensTo.keeps`), and so does any number of steps.
-/

namespace TractorRules

/-! ### Wider policies -/

/-- Under the second policy more bids beat the best one. -/
inductive BidPolicy.WidensTo : BidPolicy → BidPolicy → Prop
  | jokers : WidensTo .greaterLength .jokerOrGreaterLength
  | suits : WidensTo .jokerOrGreaterLength .jokerOrHigherSuit

inductive BidReinforcementPolicy.WidensTo : BidReinforcementPolicy → BidReinforcementPolicy → Prop
  | overturn : WidensTo .reinforceWhileWinning .overturnOrReinforceWhileWinning
  | equivalent : WidensTo .reinforceWhileWinning .reinforceWhileEquivalent

/-- Under the second policy more numbers of jokers can be bid.  With one deck a single joker is all
jokers of its kind, and yet not two of them. -/
inductive JokerBidPolicy.WidensTo (decks : Int) : JokerBidPolicy → JokerBidPolicy → Prop
  | allDecks : WidensTo decks .disabled .bothNumDecks
  | oneLess : WidensTo decks .bothNumDecks .smallNumDecksBigOneLess
  | twoOrMore (h : 2 ≤ decks) : WidensTo decks .bothNumDecks .bothTwoOrMore

theorem Bid.DominatedBy.of_widensTo {policy policy' : BidPolicy} {best b : Bid}
    (hw : policy.WidensTo policy') (h : DominatedBy policy best b) : DominatedBy policy' best b := by
  cases h with
  | more h => exact .more h
  | joker hp hn _ hrank =>
    subst hp
    cases hw with
    | suits => exact .higher rfl hn hrank
  | higher hp =>
    subst hp
    cases hw

theorem JokerBidPolicy.Admits.of_widensTo {policy policy' : JokerBidPolicy} {decks n : Int} {j : Joker}
    (hdecks : 1 ≤ decks) (hw : policy.WidensTo decks policy') (h : policy.Admits decks j n) :
    policy'.Admits decks j n := by
  cases hw with
  | allDecks => exact h.elim
  | oneLess =>
    have hn : n = decks := h
    cases j with
    | small => exact hn
    | big =>
      show max (decks - 1) 1 ≤ n
      omega
  | twoOrMore htwo =>
    have hn : n = decks := h
    show 2 ≤ n
    omega

theorem Card.Biddable.of_widensTo {level : Option Rank} {policy policy' : JokerBidPolicy}
    {decks n : Int} {c : Card} (hdecks : 1 ≤ decks) (hw : policy.WidensTo decks policy')
    (h : c.Biddable level policy decks n) : c.Biddable level policy' decks n := by
  cases h with
  | ofLevel h => exact .ofLevel h
  | joker h => exact .joker (h.of_widensTo hdecks hw)

namespace Auction

variable {a a' a'' : Auction} {id : PlayerId} {current : List Bid} {b : Bid}

theorem Entitled.of_bidPolicy {policy policy' : BidPolicy} {reinforcement : BidReinforcementPolicy}
    (hw : policy.WidensTo policy') (h : Entitled policy reinforcement current b) :
    Entitled policy' reinforcement current b := by
  cases h with
  | opens h => exact .opens h
  | adds hbest hid hcard hmore => exact .adds hbest hid hcard hmore
  | overturns hbest hid hr hcard hdom => exact .overturns hbest hid hr hcard (hdom.of_widensTo hw)
  | overbids hbest hid hdom => exact .overbids hbest hid (hdom.of_widensTo hw)
  | reinforces hbest hr h => exact .reinforces hbest hr h

theorem Entitled.of_reinforcement {policy : BidPolicy}
    {reinforcement reinforcement' : BidReinforcementPolicy}
    (hw : reinforcement.WidensTo reinforcement') (h : Entitled policy reinforcement current b) :
    Entitled policy reinforcement' current b := by
  have hr : reinforcement = .reinforceWhileWinning := by cases hw <;> rfl
  subst hr
  cases h with
  | opens h => exact .opens h
  | adds hbest hid hcard hmore => exact .adds hbest hid hcard hmore
  | overturns _ _ hr => cases hr
  | overbids hbest hid hdom => exact .overbids hbest hid hdom
  | reinforces _ hr => cases hr

/-! ### Wider auctions -/

/-- A player gets more cards, or one policy is made wider. -/
inductive WidensTo (id : PlayerId) : Auction → Auction → Prop
  | hand {a : Auction} {hands : Hands} {hand hand' : Hand} (hhand : a.hands.get id = .ok hand)
    (hhand' : hands.get id = .ok hand') (hsub : hand.cards.Subperm hand'.cards) :
    WidensTo id a { a with hands }
  | bidPolicy {a : Auction} {bidPolicy : BidPolicy} (h : a.bidPolicy.WidensTo bidPolicy) :
    WidensTo id a { a with bidPolicy }
  | reinforcement {a : Auction} {reinforcement : BidReinforcementPolicy}
    (h : a.reinforcement.WidensTo reinforcement) : WidensTo id a { a with reinforcement }
  | jokerPolicy {a : Auction} {jokerPolicy : JokerBidPolicy}
    (h : a.jokerPolicy.WidensTo a.decks jokerPolicy) : WidensTo id a { a with jokerPolicy }

/-- The seats and decks stay, and whatever the player may bid stays on offer. -/
structure Keeps (id : PlayerId) (a a' : Auction) : Prop where
  decks : a'.decks = a.decks
  players : a'.players = a.players
  landlord : a'.landlord = a.landlord
  offers : ∀ hand, a.hands.get id = .ok hand → ∃ hand', a'.hands.get id = .ok hand' ∧
    ∀ level current b, a.IsOffer level hand current b → a'.IsOffer level hand' current b

theorem Keeps.refl (id : PlayerId) (a : Auction) : Keeps id a a where
  decks := rfl
  players := rfl
  landlord := rfl
  offers hand hhand := ⟨hand, hhand, fun _ _ _ h => h⟩

theorem Keeps.trans (h : Keeps id a a') (h' : Keeps id a' a'') : Keeps id a a'' where
  decks := h'.decks.trans h.decks
  players := h'.players.trans h.players
  landlord := h'.landlord.trans h.landlord
  offers hand hhand := by
    obtain ⟨hand', hhand', hoffers⟩ := h.offers hand hhand
    obtain ⟨hand'', hhand'', hoffers'⟩ := h'.offers hand' hhand'
    exact ⟨hand'', hhand'', fun level current b hb =>
      hoffers' level current b (hoffers level current b hb)⟩

theorem Keeps.of_hands_eq (hhands : a'.hands = a.hands) (hdecks : a'.decks = a.decks)
    (hplayers : a'.players = a.players) (hlandlord : a'.landlord = a.landlord)
    (hoffers : ∀ level hand current b,
      a.IsOffer level hand current b → a'.IsOffer level hand current b) : Keeps id a a' where
  decks := hdecks
  players := hplayers
  landlord := hlandlord
  offers hand hhand := ⟨hand, hhands ▸ hhand, fun level current b => hoffers level hand current b⟩

theorem WidensTo.keeps (hdecks : 1 ≤ a.decks) (hw : WidensTo id a a') : Keeps id a a' := by
  -- a step touches one of the four things that the rules ask for, and makes it easier to meet
  cases hw with
  | @hand hands hand hand' hhand hhand' hsub =>
    refine ⟨rfl, rfl, rfl, fun held hheld => ⟨hand', hhand', fun level current b h => ?_⟩⟩
    obtain rfl := Except.ok.inj (hhand.symm.trans hheld)
    have hmore : hand.count b.card ≤ hand'.count b.card := by
      rw [← hand.count_cards, ← hand'.count_cards]
      exact hsub.count_le b.card
    exact ⟨h.count_pos, h.held.trans (Int.ofNat_le.mpr hmore), h.biddable, h.entitled⟩
  | bidPolicy hw =>
    refine Keeps.of_hands_eq rfl rfl rfl rfl fun level hand current b h => ?_
    exact ⟨h.count_pos, h.held, h.biddable, h.entitled.of_bidPolicy hw⟩
  | reinforcement hw =>
    refine Keeps.of_hands_eq rfl rfl rfl rfl fun level hand current b h => ?_
    exact ⟨h.count_pos, h.held, h.biddable, h.entitled.of_reinforcement hw⟩
  | jokerPolicy hw =>
    refine Keeps.of_hands_eq rfl rfl rfl rfl fun level hand current b h => ?_
    exact ⟨h.count_pos, h.held, h.biddable.of_widensTo hdecks hw, h.entitled⟩

theorem keeps_of_widensTo (hdecks : 1 ≤ a.decks) (hw : Relation.ReflTransGen (WidensTo id) a a') :
    Keeps id a a' := by
  -- on the number of steps; the decks stay, so each step has at least one of them
  induction hw with
  | refl => exact .refl id a
  | tail _ hstep ih =>
    have hdecks' := ih.decks ▸ hdecks
    exact ih.trans (hstep.keeps hdecks')

/-- Whatever a player may bid stays on offer, in every epoch after every history, when the player gets
more cards and the policies are made wider, in any number of steps. -/
theorem wider_auction_keeps_bids (hw : Relation.ReflTransGen (WidensTo id) a a')
    (hdecks : 1 ≤ a.decks) {bidder : Player} {hand : Hand}
    (hbidder : findPlayer a.players (a.landlord.getD id) = .ok bidder)
    (hhand : a.hands.get id = .ok hand) (history : List Bid) (epoch : Int) :
    ∃ bids bids', a.validBids history id epoch = .ok bids ∧
      a'.validBids history id epoch = .ok bids' ∧ bids ⊆ bids' := by
  have hkeeps := keeps_of_widensTo hdecks hw
  have hdecks' : 1 ≤ a'.decks := hkeeps.decks ▸ hdecks
  have hbidder' : findPlayer a'.players (a'.landlord.getD id) = .ok bidder := by
    rw [hkeeps.players, hkeeps.landlord, hbidder]
  obtain ⟨hand', hhand', hoffers⟩ := hkeeps.offers hand hhand
  obtain ⟨bids, hbids, -⟩ := exists_validBids hdecks hbidder hhand history epoch
  obtain ⟨bids', hbids', -⟩ := exists_validBids hdecks' hbidder' hhand' history epoch
  refine ⟨bids, bids', hbids, hbids', fun b hb => ?_⟩
  obtain ⟨hid, hepoch, hoffer⟩ := (mem_validBids_iff hbids hbidder hhand).mp hb
  exact (mem_validBids_iff hbids' hbidder' hhand').mpr ⟨hid, hepoch, hoffers _ _ _ hoffer⟩

/-- Only more copies beat a bid, and jokers cannot be bid. -/
def clubsAlone : Auction :=
  { clubsAgainstJokers .reinforceWhileWinning with
    bidPolicy := .greaterLength, jokerPolicy := .disabled }

/-- The first player has a heart as well, and all policies are wider. -/
def clubsAndHeart : Auction :=
  { clubsAgainstJokers .reinforceWhileEquivalent with
    hands := .ofList [(1, .ofCards [.suited .hearts .two, .suited .clubs .two, .suited .clubs .two]),
      (2, .ofCards [.joker .big, .joker .big])]
    bidPolicy := .jokerOrHigherSuit }

theorem widensTo_clubsAndHeart :
    Relation.ReflTransGen (WidensTo 1) clubsAlone clubsAndHeart := by
  have hhand : clubsAlone.hands.get 1 =
      .ok (.ofCards [.suited .clubs .two, .suited .clubs .two]) := rfl
  have hhand' : clubsAndHeart.hands.get 1 =
      .ok (.ofCards [.suited .hearts .two, .suited .clubs .two, .suited .clubs .two]) := rfl
  apply Relation.ReflTransGen.head (.hand hhand hhand' (Hand.contains_iff.mp (by decide)))
  apply Relation.ReflTransGen.head (.bidPolicy .jokers)
  apply Relation.ReflTransGen.head (.bidPolicy .suits)
  apply Relation.ReflTransGen.head (.reinforcement .equivalent)
  apply Relation.ReflTransGen.head (.jokerPolicy .allDecks)
  exact Relation.ReflTransGen.single (.jokerPolicy (.twoOrMore (by decide)))

/-- Two clubs beat one joker, with and without the heart. -/
theorem two_clubs_kept :
    Relation.ReflTransGen (WidensTo 1) clubsAlone clubsAndHeart ∧ (1 : Int) ≤ clubsAlone.decks ∧
      ∃ bids bids', clubsAlone.validBids [⟨2, .joker .big, 1, 0⟩] 1 0 = .ok bids ∧
        clubsAndHeart.validBids [⟨2, .joker .big, 1, 0⟩] 1 0 = .ok bids' ∧ bids ⊆ bids' ∧
        ⟨1, .suited .clubs .two, 2, 0⟩ ∈ bids := by
  have hdecks : (1 : Int) ≤ clubsAlone.decks := by decide
  obtain ⟨bids, bids', hbids, hbids', hsub⟩ := wider_auction_keeps_bids widensTo_clubsAndHeart hdecks
    rfl rfl [⟨2, .joker .big, 1, 0⟩] 0
  have hdom : Bid.DominatedBy .greaterLength ⟨2, .joker .big, 1, 0⟩
      ⟨1, .suited .clubs .two, 2, 0⟩ := .more (by decide)
  refine ⟨widensTo_clubsAndHeart, hdecks, bids, bids', hbids, hbids', hsub, ?_⟩
  exact (mem_validBids_iff hbids rfl rfl).mpr
    ⟨rfl, rfl, by decide, by decide, .ofLevel rfl, .overbids rfl (by decide) hdom⟩

end Auction

end TractorRules
