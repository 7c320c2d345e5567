import TractorRules.Proofs.Format.Matches
import TractorRules.Proofs.Grouping.Cover
import TractorRules.Proofs.Trick.Renege

/-!
# Tricks that look alike

A hand lists its cards in some order, and so do plays.  The format of a lead depends on the multiset
of its cards only (`Trick.format_of_reordered_lead`).  Whether a play is allowed depends on the
multisets of the player's own cards and of the cards played, and on no other hand
(`Trick.Alike.canPlay_eq`).
-/

namespace TractorRules

namespace Trick

variable {k k' : Trick} {f : TrickFormat} {id : PlayerId} {hands hands' : Hands} {hand hand' : Hand}
  {held held' cards cards' : List Card} {policy : DrawPolicy}

/-- Tricks that differ in nothing but the order of the cards in their plays. -/
structure Alike (k k' : Trick) : Prop where
  trump_eq : k.trump = k'.trump
  queue_eq : k.queue = k'.queue
  format_eq : k.format = k'.format
  requirements_eq : k.requirements = k'.requirements
  played : List.Forall₂ (fun p p' => p.cards.Perm p'.cards) k.played k'.played

theorem Alike.currentFormat_eq (h : k.Alike k') : k.currentFormat = k'.currentFormat := by
  have hplayed := h.played
  unfold currentFormat
  rw [h.trump_eq, h.format_eq, h.requirements_eq]
  generalize k.played = plays, k'.played = plays' at hplayed
  cases k'.format with
  | some f => rfl
  | none =>
    cases hplayed with
    | nil => rfl
    | cons hperm hrest => exact congrArg (Except.map some) (TrickFormat.ofLead_perm hperm).symm

/-- The order in which the cards are listed makes no difference to the groupings that are found, nor
to their order, nor to the format of a lead or why it has none. -/
theorem format_of_reordered_lead (hc : cards.Perm cards') (t : Trump) (req : TractorRequirements) :
    (∀ b : Budget, groupings t req cards' b = groupings t req cards b) ∧
      TrickFormat.ofLead t req cards' = TrickFormat.ofLead t req cards ∧
      ∀ (k : Trick) (id : PlayerId) (later : List PlayedCards),
        { k with played := ⟨id, cards'⟩ :: later }.currentFormat =
          { k with played := ⟨id, cards⟩ :: later }.currentFormat := by
  refine ⟨groupings_perm hc, TrickFormat.ofLead_perm hc, fun k id later => ?_⟩
  have hplays : List.Forall₂ (fun p p' : PlayedCards => p.cards.Perm p'.cards)
      (⟨id, cards'⟩ :: later) (⟨id, cards⟩ :: later) :=
    .cons hc.symm (List.forall₂_same.mpr fun p _ => .refl p.cards)
  exact Alike.currentFormat_eq ⟨rfl, rfl, rfl, rfl, hplays⟩

/-- Two pairs in a row, listed in turns, are led as a run. -/
theorem pairs_listed_in_turns :
    [spade 3, spade 3, spade 4, spade 4].Perm [spade 4, spade 3, spade 4, spade 3] ∧
      TrickFormat.ofLead pairFormat.trump .standard [spade 4, spade 3, spade 4, spade 3] =
        .ok ⟨.plain .spades, pairFormat.trump, [⟨2, 2, by decide, by decide⟩]⟩ := by
  have hperm : [spade 3, spade 3, spade 4, spade 4].Perm [spade 4, spade 3, spade 4, spade 3] := by
    decide
  refine ⟨hperm, ?_⟩
  rw [(format_of_reordered_lead hperm pairFormat.trump .standard).2.1]
  cbv

theorem Alike.cardsOfSuit_perm (h : k.Alike k') (hc : cards.Perm cards') (suit : EffectiveSuit) :
    (k.cardsOfSuit suit cards).Perm (k'.cardsOfSuit suit cards') := by
  unfold cardsOfSuit
  rw [h.trump_eq]
  exact hc.filter _

theorem checkLead_cases (k : Trick) (cards : List Card) :
    k.checkLead cards = .ok () ∨ k.checkLead cards = .error .mixedSuits := by
  unfold checkLead
  split
  · exact Or.inl rfl
  · split
    · exact Or.inl rfl
    · exact Or.inr rfl

theorem Alike.checkLead_eq (h : k.Alike k') (hc : cards.Perm cards') :
    k.checkLead cards = k'.checkLead cards' := by
  have hiff : k.checkLead cards = .ok () ↔ k'.checkLead cards' = .ok () := by
    simp only [checkLead_eq_ok_iff, h.trump_eq, hc.mem_iff]
  rcases k.checkLead_cases cards with hok | hmixed
  · rw [hok, hiff.mp hok]
  · rcases k'.checkLead_cases cards' with hok' | hmixed'
    · exact (hiff.mpr hok').trans hok'.symm
    · rw [hmixed, hmixed']

theorem verdict_congr (htrump : k.trump = k'.trump) (rows : List Shape) (hheld : held.Perm held')
    (hc : cards.Perm cards') :
    k.verdict rows held cards policy = k'.verdict rows held' cards' policy := by
  unfold verdict
  simp only [htrump, canMatch_perm hheld, canMatch_perm hc]

theorem Alike.checkFollow_eq [RowOrder] (h : k.Alike k') (hh : hand.cards.Perm hand'.cards)
    (hc : cards.Perm cards') :
    k.checkFollow f hand cards policy = k'.checkFollow f hand' cards' policy := by
  have hheld := h.cardsOfSuit_perm hh f.suit
  have hsuit := h.cardsOfSuit_perm hc f.suit
  have hall : (k.cardsOfSuit f.suit cards).isPerm (k.cardsOfSuit f.suit hand.cards) =
      (k'.cardsOfSuit f.suit cards').isPerm (k'.cardsOfSuit f.suit hand'.cards) := by
    rw [Bool.eq_iff_iff, List.isPerm_iff, List.isPerm_iff]
    exact ⟨fun hp => hsuit.symm.trans (hp.trans hheld), fun hp => hsuit.trans (hp.trans hheld.symm)⟩
  rw [Trick.checkFollow_eq, Trick.checkFollow_eq, hc.length_eq, hsuit.length_eq, hall,
    verdict_congr h.trump_eq _ hheld hsuit]

/-- The cases of a play are the same for both, and the checks that they come to agree. -/
theorem Alike.canPlay_eq [RowOrder] (h : k.Alike k') (hh : hands.held id = hands'.held id)
    (hc : cards.Perm cards') :
    k.canPlay id hands cards policy = k'.canPlay id hands' cards' policy := by
  have hcase := k.judgement id hands cards policy
  generalize k.canPlay id hands cards policy = verdict at hcase
  have hne (hne : cards ≠ []) : cards' ≠ [] := by
    rintro rfl
    exact hne hc.eq_nil
  have hhand {hand : Hand} (hget : hands.get id = .ok hand) :
      ∃ hand', hands'.get id = .ok hand' ∧ hand.cards.Perm hand'.cards := by
    rcases Hands.get_of_held_eq hh with ⟨hnone, -⟩ | ⟨_, hand', hget', hget'', hperm⟩
    · cases hget.symm.trans hnone
    · obtain rfl := Except.ok.inj (hget.symm.trans hget')
      exact ⟨hand', hget'', hperm⟩
  have hsub {hand hand' : Hand} (hperm : hand.cards.Perm hand'.cards) :
      cards.Subperm hand.cards ↔ cards'.Subperm hand'.cards :=
    hc.subperm_right.trans hperm.subperm_left
  rw [eq_comm]
  cases hcase with
  | complete hq => exact (Judgement.complete (h.queue_eq ▸ hq)).canPlay_eq
  | notYourTurn hq hid => exact (Judgement.notYourTurn (h.queue_eq ▸ hq) hid).canPlay_eq
  | noCards hq hnil =>
    subst hnil
    exact (Judgement.noCards (h.queue_eq ▸ hq) hc.nil_eq.symm).canPlay_eq
  | unknown hq hnil hget =>
    rcases Hands.get_of_held_eq hh with ⟨-, hnone⟩ | ⟨hand, _, hsome, -⟩
    · exact (Judgement.unknown (h.queue_eq ▸ hq) (hne hnil) hnone).canPlay_eq
    · cases hget.symm.trans hsome
  | notInHand hq hnil hget hno =>
    obtain ⟨hand', hget', hperm⟩ := hhand hget
    exact (Judgement.notInHand (h.queue_eq ▸ hq) (hne hnil) hget'
      (mt (hsub hperm).mpr hno)).canPlay_eq
  | noFormat hq hnil hget hin hf =>
    obtain ⟨hand', hget', hperm⟩ := hhand hget
    exact (Judgement.noFormat (h.queue_eq ▸ hq) (hne hnil) hget' ((hsub hperm).mp hin)
      (h.currentFormat_eq ▸ hf)).canPlay_eq
  | lead hq hnil hget hin hf =>
    obtain ⟨hand', hget', hperm⟩ := hhand hget
    rw [h.checkLead_eq hc]
    exact (Judgement.lead (h.queue_eq ▸ hq) (hne hnil) hget' ((hsub hperm).mp hin)
      (h.currentFormat_eq ▸ hf)).canPlay_eq
  | follow hq hnil hget hin hf =>
    obtain ⟨hand', hget', hperm⟩ := hhand hget
    rw [h.checkFollow_eq hperm hc]
    exact (Judgement.follow (h.queue_eq ▸ hq) (hne hnil) hget' ((hsub hperm).mp hin)
      (h.currentFormat_eq ▸ hf)).canPlay_eq

end Trick

end TractorRules
