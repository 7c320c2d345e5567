import TractorRules.Proofs.Operation.Reading
import TractorRules.Proofs.Trick.Follow
import TractorRules.Proofs.Trump.Groups
import TractorRules.Proofs.Wire.RoundTrip
import TractorRules.Proofs.Wire.Rewritten

/-!
# Answers with sorted cards

Cards grouped by effective suit are a canonical form of the cards (`groups_are_canonical`): sorted, one
group for each suit, the same for all orders of the cards, and kept when they are grouped again, also by
a request that writes the cards of an answer.
-/

namespace TractorRules

open Wire

variable {fields : Fields} {inputs : Inputs}

namespace Trump

theorem groupBySuit_perm (t : Trump) {cards cards' : List Card} (h : cards.Perm cards') :
    t.groupBySuit cards' = t.groupBySuit cards := by
  rw [groupBySuit, groupBySuit, t.sort_eq_of_perm h]

/-- Indices that go up leave room for each suit once, in this order. -/
theorem suits_groupBySuit_sublist (t : Trump) (cards : List Card) :
    ((t.groupBySuit cards).map SuitGroup.suit).Sublist
      [.plain .clubs, .plain .diamonds, .plain .spades, .plain .hearts, .trump] := by
  let before (a b : EffectiveSuit) : Prop := a.index < b.index
  have hup : ((t.groupBySuit cards).map SuitGroup.suit).Pairwise before :=
    List.pairwise_map.mpr (t.pairwise_groupBySuit cards)
  have hnodup : ((t.groupBySuit cards).map SuitGroup.suit).Nodup :=
    hup.imp fun hlt heq => absurd (heq ▸ hlt) (lt_irrefl _)
  have : Std.Antisymm before := ⟨fun _ _ hab hba => absurd hab (lt_asymm hba)⟩
  refine List.sublist_of_subperm_of_pairwise (List.subperm_of_subset hnodup fun s _ => ?_) hup ?_
  · rcases s with (_ | _ | _ | _) | _ <;> decide
  · simp only [before]
    decide

theorem groupBySuit_flattened (t : Trump) (cards : List Card) :
    t.groupBySuit ((t.groupBySuit cards).flatMap SuitGroup.cards) = t.groupBySuit cards :=
  t.groupBySuit_perm (t.groupBySuit_flatten_perm cards).symm

end Trump

/-! ### The cards of an answer as a request -/

/-- The cards that an answer lists, group by group. -/
def Answer.groupedCards (response : Json) : List Json :=
  (itemsAt "results" response).flatMap (itemsAt "cards")

/-- A request with the cards of an answer in place of its own. -/
def regrouped (fields : Fields) (response : Json) : Fields :=
  fields.put (Text.ofString "cards") (.array (Answer.groupedCards response))

theorem Answer.groupedCards_writeResults (groups : List Trump.SuitGroup) :
    groupedCards (writeResults (groups.map writeSuitGroup)) =
      (groups.flatMap Trump.SuitGroup.cards).map writeCard := by
  rw [groupedCards, itemsAt_writeResults, List.flatMap_map, List.map_flatMap]
  rfl

theorem Operation.suits_of_read {t : Trump} {cards : List Card}
    (h : sortAndGroupCards.read (.object fields) = .ok (.suits t cards)) :
    (requireField fields "trump" "request" >>= readTrump) = .ok t := by
  obtain ⟨value, hvalue, h⟩ := bind_eq_ok_iff.mp h
  obtain ⟨t', ht, h⟩ := bind_eq_ok_iff.mp h
  obtain ⟨list, -, h⟩ := bind_eq_ok_iff.mp h
  obtain ⟨cards', -, h⟩ := bind_eq_ok_iff.mp h
  obtain ⟨rfl, -⟩ := Inputs.suits.inj (Except.ok.inj h)
  exact bind_eq_ok_iff.mpr ⟨value, hvalue, ht⟩

theorem Operation.read_regrouped {t : Trump} {cards sorted : List Card} {response : Json}
    (h : sortAndGroupCards.read (.object fields) = .ok (.suits t cards))
    (hr : Answer.groupedCards response = sorted.map writeCard) :
    sortAndGroupCards.read (.object (regrouped fields response)) = .ok (.suits t sorted) := by
  have hne : Text.ofString "trump" ≠ Text.ofString "cards" := by decide
  have htrump : requireField (regrouped fields response) "trump" "request" =
      requireField fields "trump" "request" := by
    rw [requireField, requireField, Json.lookup, Json.lookup, regrouped, Entries.lookup_put,
      if_neg hne]
  have hcards : requireField (regrouped fields response) "cards" "request" =
      .ok (writeCards sorted) := by
    rw [requireField_eq_ok_iff, Json.lookup, regrouped, Entries.lookup_put, if_pos rfl, hr]
    rfl
  obtain ⟨value, hvalue, ht⟩ := bind_eq_ok_iff.mp (suits_of_read h)
  simp only [read, require_object, htrump, hcards, hvalue, ht, readCards_writeCards, bind,
    Except.bind]
  rfl

/-- The groups list the cards in sorted order, each is of one effective suit, and the suits go up from
clubs, diamonds, spades and hearts to trump.  Another order of the cards gives the same groups, and so
do the cards of the groups themselves.  A request answered with groups is answered in the same way when
it has the cards of the answer instead. -/
theorem groups_are_canonical [RowOrder] (t : Trump) (cards : List Card) :
    ((t.groupBySuit cards).flatMap Trump.SuitGroup.cards).Perm cards ∧
    (((t.groupBySuit cards).flatMap Trump.SuitGroup.cards).Pairwise fun a b =>
      (t.sortKey a).le (t.sortKey b)) ∧
    (∀ g ∈ t.groupBySuit cards, g.cards ≠ [] ∧ ∀ c ∈ g.cards, t.effectiveSuit c = g.suit) ∧
    ((t.groupBySuit cards).map Trump.SuitGroup.suit).Sublist
      [.plain .clubs, .plain .diamonds, .plain .spades, .plain .hearts, .trump] ∧
    (∀ cards', cards.Perm cards' → t.groupBySuit cards' = t.groupBySuit cards) ∧
    t.groupBySuit ((t.groupBySuit cards).flatMap Trump.SuitGroup.cards) = t.groupBySuit cards ∧
    ∀ fields, Operation.sortAndGroupCards.read (.object fields) = .ok (.suits t cards) →
      ∃ response,
        response = writeResults ((t.groupBySuit cards).map writeSuitGroup) ∧
        (dispatch (Text.ofString "sort_and_group_cards") (.object fields)).result = .ok response ∧
        (dispatch (Text.ofString "sort_and_group_cards")
          (.object (regrouped fields response))).result = .ok response := by
  refine ⟨t.groupBySuit_flatten_perm cards, ?_, fun g hg => ?_, ?_, fun _ => t.groupBySuit_perm,
    t.groupBySuit_flattened cards, fun fields h => ?_⟩
  · rw [t.groupBySuit_flatten]
    exact (t.pairwise_sort cards).imp t.cardLe_iff.mp
  · have hsound := Trump.isSound_of_mem_groupBySuit hg
    exact ⟨hsound.ne_nil, hsound.suit_eq⟩
  · exact t.suits_groupBySuit_sublist cards
  · refine ⟨_, rfl, dispatch_of_read h, ?_⟩
    have hread := Operation.read_regrouped h
      (Answer.groupedCards_writeResults (t.groupBySuit cards))
    have hagain := dispatch_of_read hread
    rwa [Inputs.response, t.groupBySuit_flattened] at hagain

/-- With hearts and twos as trump: a club, two hearts, a spade, two twos and a joker, in no order. -/
def mixedHand : Fields :=
  [(Text.ofString "cards", .array (["LJ", "3H", "3c", " 2S", "AS", "2H", "3h"].map .ofString)),
    (Text.ofString "trump", .record [("suit", .ofString "hearts"), ("number", .int 2)])]

def mixedHandAnswer : Json :=
  writeResults [
    .record [("suit", .ofString "CLUBS"), ("cards", .array (["3C"].map .ofString))],
    .record [("suit", .ofString "SPADES"), ("cards", .array (["AS"].map .ofString))],
    .record [("suit", .ofString "TRUMP"),
      ("cards", .array (["3H", "3H", "2S", "2H", "LJ"].map .ofString))]]

section

open scoped RowOrder

theorem mixedHand_regrouped :
    (dispatch (Text.ofString "sort_and_group_cards") (.object mixedHand)).result =
        .ok mixedHandAnswer ∧
      (dispatch (Text.ofString "sort_and_group_cards")
        (.object (regrouped mixedHand mixedHandAnswer))).result = .ok mixedHandAnswer := by
  let three (s : Suit) : Card := .suited s ⟨3, by decide, by decide⟩
  let ace (s : Suit) : Card := .suited s ⟨14, by decide, by decide⟩
  let t : Trump := ⟨some .hearts, some .two⟩
  let cards : List Card := [.joker .small, three .hearts, three .clubs, .suited .spades .two,
    ace .spades, .suited .hearts .two, three .hearts]
  let sorted : List Card := [three .clubs, ace .spades, three .hearts, three .hearts,
    .suited .spades .two, .suited .hearts .two, .joker .small]
  have hread : Operation.sortAndGroupCards.read (.object mixedHand) = .ok (.suits t cards) := rfl
  have hperm : sorted.Perm cards := by decide
  have hsorted : sorted.Pairwise fun a b => t.cardLe a b = true := by decide
  have hgroups : t.groupBySuit cards = t.groupRuns sorted := by
    rw [t.groupBySuit_perm hperm, Trump.groupBySuit, Trump.sort, List.mergeSort_of_pairwise hsorted]
  obtain ⟨-, -, -, -, -, -, hoperation⟩ := groups_are_canonical t cards
  obtain ⟨response, rfl, hfirst, hagain⟩ := hoperation mixedHand hread
  rw [hgroups] at hfirst hagain
  exact ⟨hfirst, hagain⟩

end

end TractorRules
