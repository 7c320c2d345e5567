import TractorRules.Proofs.Trick.Follow
import TractorRules.Operation.Tricks
import Mathlib.Data.List.Find

/-!
# Cards offered to a follower

With each row of the decomposition goes an example of how the held cards play it.  Any way to play
the first row that the held cards satisfy is accepted (`answers_to_binding_row_accepted`), and so the
first example that is not empty is.
-/

namespace TractorRules

/-- The example that goes with a row, if the held cards satisfy it. -/
def TrickFormat.playable (f : TrickFormat) (held : List Card) (policy : DrawPolicy) (row : Shape) :
    List Card :=
  ((matchShape f.trump held row policy (some 1)).head?.map Grouping.cards).getD []

namespace TrickFormat

variable {f : TrickFormat} {held : List Card} {policy : DrawPolicy} {row : Shape}

theorem playable_of_not_canMatch (h : canMatch f.trump held row policy = false) :
    f.playable held policy row = [] := by
  have hnil : matchShape f.trump held row policy (some 1) = [] := by simpa [canMatch] using h
  rw [playable, hnil]
  rfl

theorem exists_placement_playable (h : canMatch f.trump held row policy = true) :
    ∃ units singles, f.playable held policy row = Grouping.cards units ++ singles ∧
      Placement f.trump policy held row.structured units ∧
      singles.length = row.count .single ∧ (Grouping.cards units ++ singles).Subperm held := by
  have hne : matchShape f.trump held row policy (some 1) ≠ [] := by
    simpa [canMatch] using h
  obtain ⟨g, gs, hg⟩ := List.exists_cons_of_ne_nil hne
  have hmem : g ∈ matchShape f.trump held row policy none := by
    rw [matchShape_eq_cut] at hg
    exact List.mem_of_mem_take (i := 1) (by rw [Budget.cut] at hg; simp [hg])
  obtain ⟨units, singles, rfl, hplace, hlen, hsub⟩ := exists_placement_of_mem hmem
  refine ⟨units, singles, ?_, hplace, hlen, hsub⟩
  rw [playable, hg, List.head?_cons, Option.map_some, Option.getD_some, Grouping.cards_append,
    Grouping.cards_singles]

theorem playable_ne_nil_iff [RowOrder] (hn : 1 ≤ f.size) (hrow : row ∈ f.decomposition policy) :
    f.playable held policy row ≠ [] ↔ canMatch f.trump held row policy = true := by
  constructor
  · intro h
    by_contra hmatch
    exact h (playable_of_not_canMatch (by simpa using hmatch))
  · intro h hnil
    obtain ⟨units, singles, heq, hplace, hlen, hsub⟩ := exists_placement_playable h
    obtain ⟨-, hsize⟩ := canMatch_of_placement hplace hlen hsub (.refl _)
    rw [← heq, hnil, size_of_mem_decomposition hrow, List.length_nil] at hsize
    omega

theorem playable_eq_nil_of_length_lt [RowOrder] (h : held.length < f.size)
    (hrow : row ∈ f.decomposition policy) : f.playable held policy row = [] := by
  refine playable_of_not_canMatch (Bool.eq_false_iff.mpr fun hmatch => ?_)
  have hsize := (canMatch_iff.mp hmatch).1
  rw [size_of_mem_decomposition hrow] at hsize
  omega

/-- The first example that is not empty goes with the first row that the held cards satisfy. -/
theorem find?_playable [RowOrder] (hn : 1 ≤ f.size) :
    (f.decomposition policy).find? (fun row => f.playable held policy row != []) =
      (f.decomposition policy).find? (canMatch f.trump held · policy) := by
  apply List.find?_congr
  intro row hrow
  rw [Bool.eq_iff_iff, bne_iff_ne]
  exact playable_ne_nil_iff hn hrow

end TrickFormat

/-! ### Requests -/

/-- A request for the rows of a format that reads as the given values. -/
structure Answer.AsksForRows (request : Json) (f : TrickFormat) (hands : Hands) (id : PlayerId)
    (policy : DrawPolicy) : Prop where
  format : (Wire.require request "trick_format" >>= Wire.readFormat) = .ok f
  hands : (Wire.require request "hands" >>= Wire.readHands) = .ok hands
  player : (Wire.require request "player_id" >>= Wire.readPlayerId) = .ok id
  policy : readDrawPolicy request = .ok policy

/-- The answer lists the rows in order, each with its words and its example. -/
theorem Answer.formatRows_eq [RowOrder] {request : Json} {f : TrickFormat} {hands : Hands}
    {id : PlayerId} {policy : DrawPolicy} {hand : Hand} (h : AsksForRows request f hands id policy)
    (hh : hands.get id = .ok hand) :
    formatRows request = .ok (Wire.writeResults ((f.decomposition policy).map fun row => .record [
      ("format", .array (row.map Wire.writeShape)), ("description", .ofString row.describe),
      ("playable", Wire.writeCards
        (f.playable (hand.cards.filter fun c => f.trump.effectiveSuit c == f.suit) policy row))])) := by
  obtain ⟨hformat, hhands, hplayer, hpolicy⟩ := h
  have hcards : hands.cardsOf id = .ok hand.cards := by
    rw [Hands.cardsOf, hh]
    rfl
  cases hj : Wire.require request "trick_format" with
  | error e => simp [hj, bind, Except.bind] at hformat
  | ok j =>
    cases hj' : Wire.require request "hands" with
    | error e => simp [hj', bind, Except.bind] at hhands
    | ok j' =>
      cases hj'' : Wire.require request "player_id" with
      | error e => simp [hj'', bind, Except.bind] at hplayer
      | ok j'' =>
        simp only [hj, hj', hj'', bind, Except.bind] at hformat hhands hplayer
        simp only [formatRows, hj, hj', hj'', hformat, hhands, hplayer, hpolicy, hcards, bind,
          Except.bind]
        rfl

/-! ### Accepted answers -/

section Accepted

variable {k : Trick} {f : TrickFormat} {id : PlayerId} {queue : List PlayerId} {hands : Hands}
  {hand : Hand} {policy : DrawPolicy}

/-- Whatever way the first row is played that the held cards satisfy, the play is accepted. -/
theorem Trick.canPlay_placement [RowOrder] (hq : k.queue = id :: queue)
    (hf : k.currentFormat = .ok (some f))
    (hn : 1 ≤ f.size) (hh : hands.get id = .ok hand) {row : Shape}
    (hrow : (f.decomposition policy).find?
      (canMatch k.trump (k.cardsOfSuit f.suit hand.cards) · policy) = some row)
    {units : Grouping} {singles cards : List Card}
    (hplace : Placement k.trump policy (k.cardsOfSuit f.suit hand.cards) row.structured units)
    (hlen : singles.length = row.count .single)
    (hsub : (Grouping.cards units ++ singles).Subperm (k.cardsOfSuit f.suit hand.cards))
    (hcards : cards.Perm (Grouping.cards units ++ singles)) :
    k.canPlay id hands cards policy = .ok () := by
  obtain ⟨hmatch, hsize⟩ := canMatch_of_placement hplace hlen hsub hcards
  rw [TrickFormat.size_of_mem_decomposition (List.mem_of_find?_eq_some hrow)] at hsize
  rw [canPlay_suited hq hf hn hh (hcards.subperm.trans hsub) hsize, mapError_eq_ok,
    verdict_of_find hrow]
  exact hmatch

/-- A player with enough cards of the led suit satisfies some row.  However the first such row is
played, the play is accepted, and so is the first example that is offered; a player with fewer cards
is offered none. -/
theorem answers_to_binding_row_accepted [RowOrder] (policy : DrawPolicy)
    (hq : k.queue = id :: queue)
    (hf : k.currentFormat = .ok (some f)) (ht : f.trump = k.trump) (hn : 1 ≤ f.size)
    (hh : hands.get id = .ok hand) :
    (f.size ≤ (k.cardsOfSuit f.suit hand.cards).length →
      ∃ row, (f.decomposition policy).find?
          (canMatch k.trump (k.cardsOfSuit f.suit hand.cards) · policy) = some row ∧
        (∀ units singles cards,
          Placement k.trump policy (k.cardsOfSuit f.suit hand.cards) row.structured units →
          singles.length = row.count .single →
          (Grouping.cards units ++ singles).Subperm (k.cardsOfSuit f.suit hand.cards) →
          cards.Perm (Grouping.cards units ++ singles) →
          k.canPlay id hands cards policy = .ok ()) ∧
        ∃ first, (f.decomposition policy).find? (fun row =>
            f.playable (k.cardsOfSuit f.suit hand.cards) policy row != []) = some first ∧
          k.canPlay id hands (f.playable (k.cardsOfSuit f.suit hand.cards) policy first) policy =
            .ok ()) ∧
    ((k.cardsOfSuit f.suit hand.cards).length < f.size → ∀ row ∈ f.decomposition policy,
      f.playable (k.cardsOfSuit f.suit hand.cards) policy row = []) ∧
    ∀ request, Answer.AsksForRows request f hands id policy →
      Answer.formatRows request =
        .ok (Wire.writeResults ((f.decomposition policy).map fun row => .record [
          ("format", .array (row.map Wire.writeShape)), ("description", .ofString row.describe),
          ("playable", Wire.writeCards
            (f.playable (k.cardsOfSuit f.suit hand.cards) policy row))])) := by
  refine ⟨fun henough => ?_, fun hless row hrow => ?_, fun request hrequest => ?_⟩
  · obtain ⟨row, hrow⟩ : ∃ row, (f.decomposition policy).find?
        (canMatch k.trump (k.cardsOfSuit f.suit hand.cards) · policy) = some row :=
      f.exists_binding_row henough
    refine ⟨row, hrow, fun units singles cards hplace hlen hsub hcards => ?_, row, ?_, ?_⟩
    · exact Trick.canPlay_placement hq hf hn hh hrow hplace hlen hsub hcards
    · rw [TrickFormat.find?_playable hn, ht, hrow]
    · have hmatch : canMatch f.trump (k.cardsOfSuit f.suit hand.cards) row policy = true := by
        have hfirst := List.find?_some hrow
        rw [ht]
        exact hfirst
      obtain ⟨units, singles, heq, hplace, hlen, hsub⟩ := TrickFormat.exists_placement_playable hmatch
      rw [ht] at hplace
      rw [heq]
      exact Trick.canPlay_placement hq hf hn hh hrow hplace hlen hsub (.refl _)
  · exact TrickFormat.playable_eq_nil_of_length_lt hless hrow
  · rw [Answer.formatRows_eq hrequest hh, ht]
    rfl

section

open scoped RowOrder

theorem offer_for_pair_accepted :
    ∃ first, (pairFormat.decomposition .longerTuplesProtected).find? (fun row =>
        pairFormat.playable (pairTrick.cardsOfSuit pairFormat.suit tripleHand.cards)
          .longerTuplesProtected row != []) = some first ∧
      pairTrick.canPlay 1 tripleHands
        (pairFormat.playable (pairTrick.cardsOfSuit pairFormat.suit tripleHand.cards)
          .longerTuplesProtected first) .longerTuplesProtected = .ok () := by
  have hf : pairTrick.currentFormat = .ok (some pairFormat) := rfl
  have hh : tripleHands.get 1 = .ok tripleHand := rfl
  have henough : pairFormat.size ≤
      (pairTrick.cardsOfSuit pairFormat.suit tripleHand.cards).length := by decide
  obtain ⟨hanswers, -, -⟩ :=
    answers_to_binding_row_accepted .longerTuplesProtected rfl hf rfl (by decide) hh
  obtain ⟨row, -, -, hoffer⟩ := hanswers henough
  exact hoffer

end

end Accepted

end TractorRules
