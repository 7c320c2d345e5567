import TractorRules.Proofs.Bidding.Climb
import Mathlib.Data.Finset.Card
import Mathlib.Data.Finset.Lattice.Fold
import Mathlib.Order.Lattice.Nat
import Mathlib.Algebra.Order.Ring.Int

/-!
# Auctions come to an end

Under every policy the bids of an epoch are bounded by the cards of its bidders
(`length_inEpoch_le`).  An overbid player may bring back lower cards, but each player at most once for
each number of copies; between two such bids the cards climb through six ranks.  So no number of copies
is shown by more than six bids for each bidder and six more.
-/

namespace TractorRules

/-! ### Bidders and their cards -/

def Hand.mostCopies (h : Hand) : Nat := (h.entries.map Prod.snd).foldr max 0

theorem Hand.count_le_mostCopies (h : Hand) (c : Card) : h.count c ≤ h.mostCopies := by
  unfold Hand.count Hand.mostCopies
  induction h.entries with
  | nil => exact Nat.le_refl 0
  | cons e es ih =>
    rw [Counts.times_cons, List.map_cons, List.foldr_cons]
    split <;> omega

/-- The largest number of copies of one card that a player holds; none for a player without a hand. -/
def Hands.mostHeld (hands : Hands) (id : PlayerId) : Nat :=
  match hands.get id with
  | .ok hand => hand.mostCopies
  | .error _ => 0

def Hands.mostCopies (hands : Hands) (ids : Finset PlayerId) : Nat := ids.sup hands.mostHeld

theorem Hands.count_le_mostCopies {hands : Hands} {ids : Finset PlayerId} {id : PlayerId}
    {hand : Hand} (hid : id ∈ ids) (hget : hands.get id = .ok hand) (c : Card) :
    hand.count c ≤ hands.mostCopies ids := by
  have hheld : hands.mostHeld id = hand.mostCopies := by rw [mostHeld, hget]
  calc hand.count c ≤ hand.mostCopies := hand.count_le_mostCopies c
    _ = hands.mostHeld id := hheld.symm
    _ ≤ hands.mostCopies ids := Finset.le_sup hid

namespace Auction

def bidders (bids : List Bid) : Finset PlayerId := (bids.map Bid.id).toFinset

theorem mem_bidders {bids : List Bid} {id : PlayerId} :
    id ∈ bidders bids ↔ ∃ b ∈ bids, b.id = id := by
  rw [bidders, List.mem_toFinset, List.mem_map]

def reached (bids : List Bid) (n : Int) : Finset PlayerId := bidders (bids.filter (·.count == n))

theorem mem_reached {bids : List Bid} {n : Int} {id : PlayerId} :
    id ∈ reached bids n ↔ ∃ b ∈ bids, b.count = n ∧ b.id = id := by
  simp only [reached, mem_bidders, List.mem_filter, beq_iff_eq, and_assoc]

theorem reached_subset_bidders (bids : List Bid) (n : Int) : reached bids n ⊆ bidders bids := by
  intro id hid
  obtain ⟨b, hb, -, hbid⟩ := mem_reached.mp hid
  exact mem_bidders.mpr ⟨b, hb, hbid⟩

theorem bidders_subset_append (bids more : List Bid) : bidders bids ⊆ bidders (bids ++ more) := by
  intro id hid
  obtain ⟨b, hb, hbid⟩ := mem_bidders.mp hid
  exact mem_bidders.mpr ⟨b, List.mem_append_left _ hb, hbid⟩

theorem reached_subset_append (bids more : List Bid) (n : Int) :
    reached bids n ⊆ reached (bids ++ more) n := by
  intro id hid
  obtain ⟨b, hb, hn, hbid⟩ := mem_reached.mp hid
  exact mem_reached.mpr ⟨b, List.mem_append_left _ hb, hn, hbid⟩

/-! ### What the last bid allows -/

/-- How many bids there can have been among `players` bidders when `best` is the last: six rounds of
ranks for each bidder and one more for every smaller number of copies; and for this number, a round for
each player who has reached it, and the ranks up to that of `best`. -/
def room (players : Nat) (bids : List Bid) (best : Bid) : Int :=
  (best.count - 1) * (6 * (players + 1)) + 6 * (reached bids best.count).card +
    best.card.bidRank + 1

variable {a : Auction} {current history : List Bid} {best b : Bid} {players : Nat}

/-- A player whose last bid shows fewer copies has not reached that many before. -/
theorem not_mem_reached (hordered : current.Pairwise fun b b' => b.count ≤ b'.count) {own : Bid}
    {id : PlayerId} (hown : (current.filter (·.id == id)).getLast? = some own) {n : Int}
    (hless : own.count < n) : id ∉ reached current n := by
  intro hid
  obtain ⟨b', hb', hn, rfl⟩ := mem_reached.mp hid
  obtain ⟨earlier, hearlier⟩ := List.getLast?_eq_some_iff.mp hown
  have hmine : b' ∈ current.filter (·.id == b'.id) := List.mem_filter.mpr ⟨hb', beq_self_eq_true _⟩
  have hsorted := hordered.filter (p := (·.id == b'.id))
  rw [hearlier] at hmine hsorted
  rcases List.mem_append.mp hmine with hbefore | hlast
  · have hle := (List.pairwise_append.mp hsorted).2.2 b' hbefore own (List.mem_singleton_self own)
    omega
  · rw [List.mem_singleton.mp hlast] at hn
    omega

theorem room_lt_of_count_lt (hplayers : (bidders current).card ≤ players)
    (hless : best.count < b.count) :
    room players current best < room players (current ++ [b]) b := by
  have hreached := Finset.card_le_card (reached_subset_bidders current best.count)
  have hrank := best.card.bidRank_le
  have hround : best.count * (6 * (players + 1)) ≤ (b.count - 1) * (6 * (players + 1)) :=
    Int.mul_le_mul_of_nonneg_right (by omega) (by omega)
  have hsplit : (best.count - 1) * (6 * (players + 1)) + 6 * (players + 1) =
      best.count * (6 * (players + 1)) := by
    rw [Int.sub_mul, Int.one_mul]
    omega
  unfold room
  omega

/-- Every bid takes up room: with more copies there is a new round of all ranks, a higher card goes on
in its round, and a player who adds copies to reach the best bid opens a round of its own. -/
theorem room_lt (hplayers : (bidders current).card ≤ players)
    (hordered : current.Pairwise fun b b' => b.count ≤ b'.count) (hfollow : MayFollow a current b)
    (hbest : current.getLast? = some best) :
    room players current best < room players (current ++ [b]) b := by
  rcases hfollow.beats best hbest with ⟨hclimbs, -⟩ | ⟨-, -, hreach, own, hown, -, hless⟩
  · rcases hclimbs with hmore | ⟨hsame, hrank⟩
    · exact room_lt_of_count_lt hplayers hmore
    · have hreached := Finset.card_le_card (reached_subset_append current [b] b.count)
      unfold room
      rw [hsame]
      omega
  · rcases Int.lt_or_eq_of_le hreach with hmore | hsame
    · exact room_lt_of_count_lt hplayers hmore
    · have hnew : b.id ∉ reached current b.count := not_mem_reached hordered hown hless
      have hin : b.id ∈ reached (current ++ [b]) b.count :=
        mem_reached.mpr ⟨b, List.mem_append_right _ (List.mem_singleton_self b), rfl, rfl⟩
      have hsub : insert b.id (reached current b.count) ⊆ reached (current ++ [b]) b.count :=
        Finset.insert_subset hin (reached_subset_append current [b] b.count)
      have hcard := Finset.card_le_card hsub
      rw [Finset.card_insert_of_notMem hnew] at hcard
      have hrank := best.card.bidRank_le
      unfold room
      rw [hsame]
      omega

theorem Bidding.length_le_room (h : a.Bidding current) (hplayers : (bidders current).card ≤ players)
    (hbest : current.getLast? = some best) : (current.length : Int) ≤ room players current best := by
  induction h generalizing best with
  | start => simp at hbest
  | @bid current b hbids hfollow ih =>
    have hlast : b = best := by simpa using hbest
    subst hlast
    have hbefore := (Finset.card_le_card (bidders_subset_append current [b])).trans hplayers
    rw [List.length_append, List.length_singleton]
    cases hprev : current.getLast? with
    | none =>
      have hnil : current = [] := List.getLast?_eq_none_iff.mp hprev
      subst hnil
      have hfirst := Int.mul_nonneg (show 0 ≤ b.count - 1 by have := hfollow.count_pos; omega)
        (show (0 : Int) ≤ 6 * (players + 1) by omega)
      simp only [List.length_nil, room]
      omega
    | some prev =>
      have hroom := ih hbefore hprev
      have hstep := room_lt hbefore hbids.pairwise_count hfollow hprev
      omega

/-- An epoch of an auction among `P` bidders, none of whom holds more than `K` copies of a card, has at
most `6 * K * (P + 1)` bids, whatever the policies. -/
theorem length_inEpoch_le (h : a.Run history) (epoch : Int) :
    (inEpoch history epoch).length ≤
      6 * a.hands.mostCopies (bidders (inEpoch history epoch)) *
        ((bidders (inEpoch history epoch)).card + 1) := by
  generalize hcurrent : inEpoch history epoch = current
  have hbids : a.Bidding current := hcurrent ▸ h.inEpoch epoch
  cases hbest : current.getLast? with
  | none =>
    have hnil : current = [] := List.getLast?_eq_none_iff.mp hbest
    subst hnil
    exact Nat.zero_le _
  | some best =>
    have hmem : best ∈ current := List.mem_of_getLast? hbest
    have hin : best ∈ inEpoch history epoch := hcurrent ▸ hmem
    obtain ⟨hand, hget, hheld⟩ := h.held best (List.mem_of_mem_filter hin)
    have hmost := Hands.count_le_mostCopies (mem_bidders.mpr ⟨best, hmem, rfl⟩) hget best.card
    have hroom := hbids.length_le_room (Nat.le_refl _) hbest
    have hreached := Finset.card_le_card (reached_subset_bidders current best.count)
    have hrank := best.card.bidRank_le
    generalize (bidders current).card = players at *
    generalize a.hands.mostCopies (bidders current) = most at *
    have hrounds : best.count * (6 * (players + 1)) ≤ (most : Int) * (6 * (players + 1)) :=
      Int.mul_le_mul_of_nonneg_right (by omega) (by omega)
    have hsplit : (best.count - 1) * (6 * (players + 1)) + 6 * (players + 1) =
        best.count * (6 * (players + 1)) := by
      rw [Int.sub_mul, Int.one_mul]
      omega
    have htotal : (current.length : Int) ≤ (most : Int) * (6 * (players + 1)) := by
      unfold room at hroom
      omega
    have hnat : current.length ≤ most * (6 * (players + 1)) := by exact_mod_cast htotal
    calc current.length ≤ most * (6 * (players + 1)) := hnat
      _ = 6 * most * (players + 1) := by rw [← Nat.mul_assoc, Nat.mul_comm most 6]

/-- The jokers overbid a club, two clubs come back at their count, and the jokers are bid again. -/
def returnedClubs : List Bid :=
  [⟨1, .suited .clubs .two, 1, 0⟩, ⟨2, .joker .big, 2, 0⟩, ⟨1, .suited .clubs .two, 2, 0⟩,
    ⟨2, .joker .big, 2, 0⟩]

theorem run_returnedClubs : (clubsAgainstJokers .reinforceWhileEquivalent).Run returnedClubs := by
  have hclub : (clubsAgainstJokers .reinforceWhileEquivalent).Run
      [⟨1, .suited .clubs .two, 1, 0⟩] := Run.start.offer (by decide) rfl rfl (by decide) rfl
  have hjokers : (clubsAgainstJokers .reinforceWhileEquivalent).Run
      [⟨1, .suited .clubs .two, 1, 0⟩, ⟨2, .joker .big, 2, 0⟩] :=
    hclub.offer (by decide) rfl rfl (by decide) rfl
  have hclubs : (clubsAgainstJokers .reinforceWhileEquivalent).Run
      [⟨1, .suited .clubs .two, 1, 0⟩, ⟨2, .joker .big, 2, 0⟩, ⟨1, .suited .clubs .two, 2, 0⟩] :=
    hjokers.offer (by decide) rfl rfl (by decide) rfl
  exact hclubs.offer (by decide) rfl rfl (by decide) rfl

theorem returnedClubs_bounded :
    (clubsAgainstJokers .reinforceWhileEquivalent).Run returnedClubs ∧
      (inEpoch returnedClubs 0).length = 4 ∧
      (inEpoch returnedClubs 0).length ≤
        6 * (clubsAgainstJokers .reinforceWhileEquivalent).hands.mostCopies
          (bidders (inEpoch returnedClubs 0)) * ((bidders (inEpoch returnedClubs 0)).card + 1) ∧
      (clubsAgainstJokers .reinforceWhileEquivalent).hands.mostCopies
        (bidders (inEpoch returnedClubs 0)) = 2 ∧
      (bidders (inEpoch returnedClubs 0)).card = 2 :=
  ⟨run_returnedClubs, rfl, length_inEpoch_le run_returnedClubs 0, by decide, by decide⟩

end Auction

end TractorRules
