import TractorRules.Bidding
import TractorRules.Proofs.Hands

/-!
# What may be bid

When the valid bids exist (`validBids_eq_ok_iff`) and which they are (`mem_validBids_iff`).  A bid shows
copies of a held card that can be bid at all (`mem_candidates_iff`), and the earlier bids of its epoch
entitle the bidder to it (`mayBid_iff`): on top of a bid it either climbs above it or adds copies to the
bidder's own last bid (`Entitled.climbs_or_reinforces`).
-/

namespace TractorRules

theorem mem_numbersBetween {low high n : Nat} : n ∈ numbersBetween low high ↔ low ≤ n ∧ n ≤ high := by
  rw [numbersBetween, List.mem_range'_1]
  omega

/-! ### Cards that can be bid -/

/-- The numbers of jokers that a policy admits. -/
def JokerBidPolicy.Admits (policy : JokerBidPolicy) (decks : Int) (joker : Joker) (n : Int) : Prop :=
  match policy, joker with
  | .bothTwoOrMore, _ => 2 ≤ n
  | .bothNumDecks, _ => n = decks
  | .smallNumDecksBigOneLess, .small => n = decks
  | .smallNumDecksBigOneLess, .big => max (decks - 1) 1 ≤ n
  | .disabled, _ => False

theorem JokerBidPolicy.mem_counts_iff {policy : JokerBidPolicy} {joker : Joker} {held n : Nat}
    {decks : Int} (hd : 1 ≤ decks) :
    n ∈ policy.counts joker held decks.toNat ↔
      policy.Admits decks joker n ∧ 1 ≤ n ∧ n ≤ held := by
  cases policy with
  | bothTwoOrMore =>
    rw [counts, Admits, mem_numbersBetween]
    omega
  | bothNumDecks =>
    rw [counts, Admits, mem_numbersBetween]
    omega
  | smallNumDecksBigOneLess =>
    cases joker with
    | small =>
      rw [counts, Admits, mem_numbersBetween]
      omega
    | big =>
      rw [counts, Admits, mem_numbersBetween]
      omega
  | disabled => simp [counts, Admits]

/-- A card of the bid level, or as many jokers as the policy admits. -/
inductive Card.Biddable (level : Option Rank) (policy : JokerBidPolicy) (decks n : Int) : Card → Prop
  | ofLevel {s : Suit} {r : Rank} (h : level = some r) : Biddable level policy decks n (.suited s r)
  | joker {j : Joker} (h : policy.Admits decks j n) : Biddable level policy decks n (.joker j)

/-! ### Climbing -/

def Bid.Climbs (best b : Bid) : Prop :=
  best.count < b.count ∨ best.count = b.count ∧ best.card.bidRank < b.card.bidRank

namespace Bid

theorem Climbs.trans {a b c : Bid} (hab : a.Climbs b) (hbc : b.Climbs c) : a.Climbs c := by
  unfold Climbs at *
  omega

theorem Climbs.count_le {best b : Bid} (h : best.Climbs b) : best.count ≤ b.count := by
  unfold Climbs at h
  omega

theorem not_climbs_of_eq {best b : Bid} (hcard : best.card = b.card) (hcount : best.count = b.count) :
    ¬best.Climbs b := by
  unfold Climbs
  rw [hcard, hcount]
  omega

/-- A bid beats the best one with more copies, or with as many of a card that the policy ranks above. -/
inductive DominatedBy (policy : BidPolicy) (best b : Bid) : Prop
  | more (h : best.count < b.count)
  | joker (hp : policy = .jokerOrGreaterLength) (hn : best.count = b.count)
    (hj : b.card.isJoker = true) (hrank : best.card.bidRank < b.card.bidRank)
  | higher (hp : policy = .jokerOrHigherSuit) (hn : best.count = b.count)
    (hrank : best.card.bidRank < b.card.bidRank)

theorem isDominatedBy_iff {best b : Bid} {n : Nat} {policy : BidPolicy} (hn : b.count = n) :
    best.isDominatedBy b.card n policy = true ↔ DominatedBy policy best b := by
  unfold isDominatedBy
  rw [← hn]
  constructor
  · intro h
    split at h
    · rename_i hmore
      exact .more hmore
    · split at h
      · cases h
      · have heq : best.count = b.count := by omega
        cases policy with
        | greaterLength => cases h
        | jokerOrGreaterLength =>
          rw [Bool.and_eq_true, decide_eq_true_eq] at h
          exact .joker rfl heq h.1 h.2
        | jokerOrHigherSuit => exact .higher rfl heq (of_decide_eq_true h)
  · intro h
    cases h with
    | more h => rw [if_pos h]
    | joker hp heq hj hrank =>
      rw [if_neg (by omega), if_neg (by omega), hp, Bool.and_eq_true]
      exact ⟨hj, decide_eq_true hrank⟩
    | higher hp heq hrank =>
      rw [if_neg (by omega), if_neg (by omega), hp]
      exact decide_eq_true hrank

theorem DominatedBy.climbs {best b : Bid} {policy : BidPolicy} (h : DominatedBy policy best b) :
    best.Climbs b ∧ (policy = .greaterLength → best.count < b.count) := by
  cases h with
  | more h => exact ⟨Or.inl h, fun _ => h⟩
  | joker hp hn _ hrank => exact ⟨Or.inr ⟨hn, hrank⟩, by simp [hp]⟩
  | higher hp hn hrank => exact ⟨Or.inr ⟨hn, hrank⟩, by simp [hp]⟩

end Bid

theorem Card.bidRank_le (c : Card) : c.bidRank ≤ 5 := by
  cases c with
  | suited s r =>
    have hs := s.index_lt
    simp only [bidRank]
    omega
  | joker j => cases j <;> decide

/-! ### Valid bids -/

namespace Auction

variable {a : Auction} {history current bids : List Bid} {id : PlayerId} {epoch : Int}
  {bidder : Player} {hand : Hand}

def inEpoch (history : List Bid) (epoch : Int) : List Bid := history.filter (·.epoch == epoch)

theorem validBids_eq_ok_iff :
    a.validBids history id epoch = .ok bids ↔
      1 ≤ a.decks ∧ ∃ bidder hand, findPlayer a.players (a.landlord.getD id) = .ok bidder ∧
        a.hands.get id = .ok hand ∧
        bids = (((a.candidates hand bidder.level).filter fun (card, n) =>
          a.mayBid (inEpoch history epoch) id card n).mergeSort offerLe).map
            fun (card, n) => ⟨id, card, n, epoch⟩ := by
  unfold validBids
  by_cases hd : a.decks < 1
  · constructor
    · intro h
      simp [hd, bind, Except.bind, throw, throwThe, MonadExceptOf.throw] at h
    · intro h
      omega
  · rw [if_neg hd]
    cases hp : findPlayer a.players (a.landlord.getD id) with
    | error fault =>
      constructor
      · intro h
        simp [bind, Except.bind] at h
      · rintro ⟨-, bidder, hand, hb, -⟩
        simp at hb
    | ok bidder =>
      cases hh : a.hands.get id with
      | error fault =>
        constructor
        · intro h
          simp [bind, Except.bind] at h
        · rintro ⟨-, bidder, hand, -, hb, -⟩
          simp at hb
      | ok hand =>
        constructor
        · intro h
          exact ⟨by omega, bidder, hand, rfl, rfl, (Except.ok.inj h).symm⟩
        · rintro ⟨-, bidder', hand', hb, hh', rfl⟩
          obtain rfl := Except.ok.inj hb
          obtain rfl := Except.ok.inj hh'
          rfl

/-- The numbers of copies of a held card that may be bid. -/
def countsOf (a : Auction) (level : Option Rank) (held : Nat) : Card → List Nat
  | .joker j => a.jokerPolicy.counts j held a.decks.toNat
  | .suited _ r => if level = some r then numbersBetween 1 held else []

theorem candidates_eq (a : Auction) (hand : Hand) (level : Option Rank) :
    a.candidates hand level = hand.entries.flatMap fun (card, held) =>
      (a.countsOf level held card).map fun n => (card, n) := by
  unfold candidates
  congr 1
  funext ⟨card, held⟩
  cases card with
  | suited s r =>
    simp only [countsOf]
    split <;> rfl
  | joker j => rfl

theorem mem_countsOf_iff {level : Option Rank} {held n : Nat} {card : Card} (hd : 1 ≤ a.decks) :
    n ∈ a.countsOf level held card ↔
      card.Biddable level a.jokerPolicy a.decks n ∧ 1 ≤ n ∧ n ≤ held := by
  cases card with
  | suited s r =>
    show n ∈ (if level = some r then numbersBetween 1 held else []) ↔ _
    by_cases hlevel : level = some r
    · rw [if_pos hlevel, mem_numbersBetween]
      exact ⟨fun h => ⟨.ofLevel hlevel, h⟩, fun h => h.2⟩
    · rw [if_neg hlevel]
      constructor
      · intro h
        exact absurd h List.not_mem_nil
      · intro h
        cases h.1 with
        | ofLevel h => exact absurd h hlevel
  | joker j =>
    show n ∈ a.jokerPolicy.counts j held a.decks.toNat ↔ _
    rw [JokerBidPolicy.mem_counts_iff hd]
    constructor
    · intro h
      exact ⟨.joker h.1, h.2⟩
    · intro h
      cases h.1 with
      | joker hadmits => exact ⟨hadmits, h.2⟩

theorem mem_candidates_iff {level : Option Rank} {card : Card} {n : Nat} (hd : 1 ≤ a.decks) :
    (card, n) ∈ a.candidates hand level ↔
      card.Biddable level a.jokerPolicy a.decks n ∧ 1 ≤ n ∧ n ≤ hand.count card := by
  rw [candidates_eq, List.mem_flatMap]
  constructor
  · intro h
    obtain ⟨⟨c, held⟩, hentry, hn⟩ := h
    obtain ⟨m, hm, heq⟩ := List.mem_map.mp hn
    obtain ⟨rfl, rfl⟩ := Prod.mk.inj heq
    rw [Hand.count_of_mem hentry]
    exact (mem_countsOf_iff hd).mp hm
  · intro h
    have hentry : (card, hand.count card) ∈ hand.entries :=
      Hand.mem_entries_iff.mpr ⟨by omega, hand.count_cards card⟩
    exact ⟨_, hentry, List.mem_map.mpr ⟨n, (mem_countsOf_iff hd).mpr h, rfl⟩⟩

theorem mem_of_validBids (h : a.validBids history id epoch = .ok bids) {b : Bid} :
    b ∈ bids ↔ ∃ bidder hand n, findPlayer a.players (a.landlord.getD id) = .ok bidder ∧
      a.hands.get id = .ok hand ∧ (b.card, n) ∈ a.candidates hand bidder.level ∧
      a.mayBid (inEpoch history epoch) id b.card n = true ∧ b = ⟨id, b.card, n, epoch⟩ := by
  obtain ⟨-, bidder, hand, hb, hh, rfl⟩ := validBids_eq_ok_iff.mp h
  simp only [List.mem_map, List.mem_mergeSort, List.mem_filter, Prod.exists]
  constructor
  · rintro ⟨card, n, ⟨hcand, hmay⟩, rfl⟩
    exact ⟨bidder, hand, n, hb, hh, hcand, hmay, rfl⟩
  · rintro ⟨bidder', hand', n, hb', hh', hcand, hmay, hbid⟩
    obtain rfl := Except.ok.inj (hb.symm.trans hb')
    obtain rfl := Except.ok.inj (hh.symm.trans hh')
    exact ⟨b.card, n, ⟨hcand, hmay⟩, hbid.symm⟩

/-! ### One more bid -/

/-- An overbid player adds copies to the card of its own last bid until it reaches the best. -/
def Reinforces (current : List Bid) (best b : Bid) : Prop :=
  best.id ≠ b.id ∧ best.count ≤ b.count ∧
    ∃ own, (current.filter (·.id == b.id)).getLast? = some own ∧ own.card = b.card ∧
      own.count < b.count

/-- What the bids of an epoch entitle a player to: any bid opens it, the winner adds copies or
overturns, and the others overbid the best bid or reach it. -/
inductive Entitled (policy : BidPolicy) (reinforcement : BidReinforcementPolicy) (current : List Bid)
    (b : Bid) : Prop
  | opens (h : current = [])
  | adds {best : Bid} (hbest : current.getLast? = some best) (hid : best.id = b.id)
    (hcard : b.card = best.card) (hmore : best.count < b.count)
  | overturns {best : Bid} (hbest : current.getLast? = some best) (hid : best.id = b.id)
    (hr : reinforcement = .overturnOrReinforceWhileWinning) (hcard : b.card ≠ best.card)
    (hdom : Bid.DominatedBy policy best b)
  | overbids {best : Bid} (hbest : current.getLast? = some best) (hid : best.id ≠ b.id)
    (hdom : Bid.DominatedBy policy best b)
  | reinforces {best : Bid} (hbest : current.getLast? = some best)
    (hr : reinforcement = .reinforceWhileEquivalent) (h : Reinforces current best b)

theorem entitled_iff {policy : BidPolicy} {reinforcement : BidReinforcementPolicy} {b best : Bid}
    (hbest : current.getLast? = some best) :
    Entitled policy reinforcement current b ↔
      (best.id = b.id ∧ (b.card = best.card ∧ best.count < b.count ∨
        reinforcement = .overturnOrReinforceWhileWinning ∧ b.card ≠ best.card ∧
          Bid.DominatedBy policy best b)) ∨
      best.id ≠ b.id ∧ (Bid.DominatedBy policy best b ∨
        reinforcement = .reinforceWhileEquivalent ∧ Reinforces current best b) := by
  have hlast {best' : Bid} (h : current.getLast? = some best') : best' = best :=
    Option.some.inj (h.symm.trans hbest)
  constructor
  · intro h
    cases h with
    | opens h => simp [h] at hbest
    | adds h hid hcard hmore =>
      obtain rfl := hlast h
      exact Or.inl ⟨hid, Or.inl ⟨hcard, hmore⟩⟩
    | overturns h hid hr hcard hdom =>
      obtain rfl := hlast h
      exact Or.inl ⟨hid, Or.inr ⟨hr, hcard, hdom⟩⟩
    | overbids h hid hdom =>
      obtain rfl := hlast h
      exact Or.inr ⟨hid, Or.inl hdom⟩
    | reinforces h hr hown =>
      obtain rfl := hlast h
      exact Or.inr ⟨hown.1, Or.inr ⟨hr, hown⟩⟩
  · intro h
    rcases h with ⟨hid, ⟨hcard, hmore⟩ | ⟨hr, hcard, hdom⟩⟩ | ⟨hid, hdom | ⟨hr, hown⟩⟩
    · exact .adds hbest hid hcard hmore
    · exact .overturns hbest hid hr hcard hdom
    · exact .overbids hbest hid hdom
    · exact .reinforces hbest hr hown

theorem reinforces_iff {b best : Bid} {n : Nat} (hn : b.count = n) (hid : best.id ≠ b.id) :
    (match (current.filter (·.id == b.id)).getLast? with
      | none => false
      | some own => b.card == own.card && decide (own.count < n) && decide (best.count ≤ n)) = true ↔
      Reinforces current best b := by
  unfold Reinforces
  cases (current.filter (·.id == b.id)).getLast? with
  | none => simp
  | some own =>
    simp only [Bool.and_eq_true, beq_iff_eq, decide_eq_true_eq, ← hn, Option.some.injEq]
    constructor
    · intro h
      obtain ⟨⟨hcard, hless⟩, hreach⟩ := h
      exact ⟨hid, hreach, own, rfl, hcard.symm, hless⟩
    · intro h
      obtain ⟨-, hreach, own, rfl, hcard, hless⟩ := h
      exact ⟨⟨hcard.symm, hless⟩, hreach⟩

theorem mayBid_iff {b : Bid} {n : Nat} (hn : b.count = n) :
    a.mayBid current b.id b.card n = true ↔ Entitled a.bidPolicy a.reinforcement current b := by
  unfold mayBid
  cases hbest : current.getLast? with
  | none => exact ⟨fun _ => .opens (List.getLast?_eq_none_iff.mp hbest), fun _ => rfl⟩
  | some best =>
    rw [entitled_iff hbest]
    by_cases hid : best.id = b.id
    · simp only [hid, if_true, true_and, ne_eq, not_true_eq_false, false_and, or_false,
        Bool.or_eq_true, Bool.and_eq_true, beq_iff_eq, bne_iff_ne, decide_eq_true_eq,
        Bid.isDominatedBy_iff hn, ← hn, and_assoc]
    · simp only [hid, if_false, false_and, false_or, ne_eq, not_false_eq_true, true_and,
        Bool.or_eq_true, Bool.and_eq_true, beq_iff_eq, Bid.isDominatedBy_iff hn]
      exact or_congr_right (and_congr_right fun _ => reinforces_iff hn hid)

theorem Entitled.climbs_or_reinforces {policy : BidPolicy} {reinforcement : BidReinforcementPolicy}
    {b best : Bid} (h : Entitled policy reinforcement current b)
    (hbest : current.getLast? = some best) :
    best.Climbs b ∧ (policy = .greaterLength → best.count < b.count) ∨
      reinforcement = .reinforceWhileEquivalent ∧ Reinforces current best b := by
  rcases (entitled_iff hbest).mp h with ⟨-, ⟨-, hmore⟩ | ⟨-, -, hdom⟩⟩ | ⟨-, hdom | hown⟩
  · exact Or.inl ⟨Or.inl hmore, fun _ => hmore⟩
  · exact Or.inl hdom.climbs
  · exact Or.inl hdom.climbs
  · exact Or.inr hown

/-! ### What the rules ask for -/

/-- What the rules ask of a bid, given the bid level, the bidder's hand and the earlier bids of the
epoch. -/
structure IsOffer (a : Auction) (level : Option Rank) (hand : Hand) (current : List Bid) (b : Bid) :
    Prop where
  count_pos : 1 ≤ b.count
  held : b.count ≤ hand.count b.card
  biddable : b.card.Biddable level a.jokerPolicy a.decks b.count
  entitled : Entitled a.bidPolicy a.reinforcement current b

theorem isOffer_iff (hdecks : 1 ≤ a.decks) {level : Option Rank} {b : Bid} :
    a.IsOffer level hand current b ↔ ∃ n : Nat, b.count = n ∧ (b.card, n) ∈ a.candidates hand level ∧
      a.mayBid current b.id b.card n = true := by
  constructor
  · intro h
    have hpos := h.count_pos
    have hheld := h.held
    obtain ⟨n, hn⟩ : ∃ n : Nat, b.count = n := ⟨b.count.toNat, by omega⟩
    have hcand : (b.card, n) ∈ a.candidates hand level :=
      (mem_candidates_iff hdecks).mpr ⟨hn ▸ h.biddable, by omega, by omega⟩
    exact ⟨n, hn, hcand, (mayBid_iff hn).mpr h.entitled⟩
  · intro h
    obtain ⟨n, hn, hcand, hmay⟩ := h
    obtain ⟨hbiddable, hpos, hheld⟩ := (mem_candidates_iff hdecks).mp hcand
    exact ⟨by omega, by omega, hn ▸ hbiddable, (mayBid_iff hn).mp hmay⟩

theorem mem_validBids_iff (h : a.validBids history id epoch = .ok bids)
    (hbidder : findPlayer a.players (a.landlord.getD id) = .ok bidder)
    (hhand : a.hands.get id = .ok hand) {b : Bid} :
    b ∈ bids ↔ b.id = id ∧ b.epoch = epoch ∧
      a.IsOffer bidder.level hand (inEpoch history epoch) b := by
  obtain ⟨hdecks, -⟩ := validBids_eq_ok_iff.mp h
  rw [mem_of_validBids h, isOffer_iff hdecks]
  constructor
  · intro hb
    obtain ⟨bidder', hand', n, hbidder', hhand', hcand, hmay, heq⟩ := hb
    obtain rfl := Except.ok.inj (hbidder.symm.trans hbidder')
    obtain rfl := Except.ok.inj (hhand.symm.trans hhand')
    have hid : b.id = id := by rw [heq]
    exact ⟨hid, by rw [heq], n, by rw [heq], hcand, hid ▸ hmay⟩
  · intro hb
    obtain ⟨rfl, rfl, n, hn, hcand, hmay⟩ := hb
    exact ⟨bidder, hand, n, hbidder, hhand, hcand, hmay, by rw [← hn]⟩

end Auction

end TractorRules
