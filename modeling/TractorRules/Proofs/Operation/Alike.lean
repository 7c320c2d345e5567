import TractorRules.Proofs.Operation.Reading
import TractorRules.Proofs.Bidding.Order
import TractorRules.Proofs.Trick.Alike

/-!
# Inputs that look alike to a player

What a player may play or bid, and how the player's cards can play a format, depends on the multisets
of the player's own cards and of the cards of the plays (`Inputs.Alike.response_eq`).
-/

namespace TractorRules

namespace Inputs

theorem rowsOf_eq_of_perm [RowOrder] {hand hand' : List Card} (h : hand.Perm hand')
    (f : TrickFormat) (policy : DrawPolicy) : rowsOf f policy hand = rowsOf f policy hand' := by
  have hheld : (hand.filter fun c => f.trump.effectiveSuit c == f.suit).Perm
      (hand'.filter fun c => f.trump.effectiveSuit c == f.suit) := h.filter _
  unfold rowsOf Answer.writeRow
  simp only [matchShape_bounded_perm hheld]

/-- What decides about the response: the acting player's cards, and the cards of the plays, both in any
order. -/
inductive Alike : Inputs → Inputs → Prop
  | rows (f : TrickFormat) {hands hands' : Hands} {id : PlayerId} (policy : DrawPolicy)
    (hh : hands.held id = hands'.held id) : Alike (.rows f hands id policy) (.rows f hands' id policy)
  | play {k k' : Trick} {id : PlayerId} {hands hands' : Hands} {cards cards' : List Card}
    (policy : DrawPolicy) (hk : k.Alike k') (hh : hands.held id = hands'.held id)
    (hc : cards.Perm cards') :
    Alike (.play k id hands cards policy) (.play k' id hands' cards' policy)
  | bids (a : Auction) {hands : Hands} (history : List Bid) {id : PlayerId} (epoch : Int)
    (hh : a.hands.held id = hands.held id) :
    Alike (.bids a history id epoch) (.bids { a with hands } history id epoch)

theorem Alike.response_eq [RowOrder] {inputs inputs' : Inputs} (h : inputs.Alike inputs') :
    inputs.response = inputs'.response := by
  cases h with
  | rows f policy hh =>
    simp only [response, Hands.cardsOf]
    rcases Hands.get_of_held_eq hh with ⟨hnone, hnone'⟩ | ⟨hand, hand', hget, hget', hperm⟩
    · rw [hnone, hnone']
    · rw [hget, hget']
      exact congrArg Except.ok (rowsOf_eq_of_perm hperm f policy)
  | play policy hk hh hc => exact congrArg playable (hk.canPlay_eq hh hc)
  | bids a history epoch hh =>
    exact congrArg (Except.ok ∘ offers) (Auction.validBids_of_held_eq hh history epoch)

end Inputs

end TractorRules
