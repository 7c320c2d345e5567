import TractorRules.Proofs.Trick.Follow

/-!
# Judging a play

The checks of a play in their order, one constructor for the check that decides.  What is said of a
play is found by looking at the cases (`Trick.judgement`), without opening `Trick.canPlay` again.
-/

namespace TractorRules

namespace Trick

variable {k : Trick} {id : PlayerId} {hands : Hands} {cards : List Card} {policy : DrawPolicy}

theorem throw_eq {α : Type} (fault : RulesFault) :
    (throw fault : Except RulesFault α) = .error fault := rfl

/-- What a play comes to, and why: all checks before the one that decides were passed. -/
inductive Judgement [RowOrder] (k : Trick) (id : PlayerId) (hands : Hands) (cards : List Card)
    (policy : DrawPolicy) : Except RulesFault Unit → Prop
  | complete (hq : k.queue = []) : Judgement k id hands cards policy (.error (.play .trickComplete))
  | notYourTurn {next : PlayerId} {queue : List PlayerId} (hq : k.queue = next :: queue)
    (hid : next ≠ id) : Judgement k id hands cards policy (.error (.play .notYourTurn))
  | noCards {queue : List PlayerId} (hq : k.queue = id :: queue) (hne : cards = []) :
    Judgement k id hands cards policy (.error (.play .noCards))
  | unknown {queue : List PlayerId} (hq : k.queue = id :: queue) (hne : cards ≠ [])
    (hh : hands.get id = .error (.unknownPlayer id)) :
    Judgement k id hands cards policy (.error (.unknownPlayer id))
  | notInHand {queue : List PlayerId} {hand : Hand} (hq : k.queue = id :: queue)
    (hne : cards ≠ []) (hh : hands.get id = .ok hand) (hsub : ¬cards.Subperm hand.cards) :
    Judgement k id hands cards policy (.error (.play .cardsNotInHand))
  | noFormat {queue : List PlayerId} {hand : Hand} {fault : RulesFault} (hq : k.queue = id :: queue)
    (hne : cards ≠ []) (hh : hands.get id = .ok hand) (hsub : cards.Subperm hand.cards)
    (hf : k.currentFormat = .error fault) : Judgement k id hands cards policy (.error fault)
  | lead {queue : List PlayerId} {hand : Hand} (hq : k.queue = id :: queue) (hne : cards ≠ [])
    (hh : hands.get id = .ok hand) (hsub : cards.Subperm hand.cards)
    (hf : k.currentFormat = .ok none) :
    Judgement k id hands cards policy ((k.checkLead cards).mapError .play)
  | follow {queue : List PlayerId} {hand : Hand} {f : TrickFormat} (hq : k.queue = id :: queue)
    (hne : cards ≠ []) (hh : hands.get id = .ok hand) (hsub : cards.Subperm hand.cards)
    (hf : k.currentFormat = .ok (some f)) :
    Judgement k id hands cards policy ((k.checkFollow f hand cards policy).mapError .play)

theorem Judgement.canPlay_eq [RowOrder] {verdict : Except RulesFault Unit}
    (h : k.Judgement id hands cards policy verdict) : k.canPlay id hands cards policy = verdict := by
  cases h with
  | complete hq => simp [canPlay, hq]
  | notYourTurn hq hid => simp [canPlay, hq, hid, bind, Except.bind, throw_eq]
  | noCards hq hne => simp [canPlay, hq, hne, bind, Except.bind, throw_eq]
  | unknown hq hne hh => simp [canPlay, hq, hne, hh, bind, Except.bind]
  | notInHand hq hne hh hsub =>
    rw [← Hand.contains_iff] at hsub
    simp [canPlay, hq, hne, hh, hsub, bind, Except.bind, throw_eq]
  | noFormat hq hne hh hsub hf =>
    rw [← Hand.contains_iff] at hsub
    simp [canPlay, hq, hne, hh, hsub, hf, bind, Except.bind]
  | lead hq hne hh hsub hf =>
    rw [← Hand.contains_iff] at hsub
    simp [canPlay, hq, hne, hh, hsub, hf, bind, Except.bind]
  | follow hq hne hh hsub hf => exact canPlay_follow hq hne hh hsub hf

theorem exists_judgement [RowOrder] (k : Trick) (id : PlayerId) (hands : Hands) (cards : List Card)
    (policy : DrawPolicy) : ∃ verdict, k.Judgement id hands cards policy verdict := by
  cases hq : k.queue with
  | nil => exact ⟨_, .complete hq⟩
  | cons next queue =>
    by_cases hid : next = id
    · subst hid
      by_cases hne : cards = []
      · exact ⟨_, .noCards hq hne⟩
      · cases hh : hands.get next with
        | error fault =>
          obtain ⟨-, rfl⟩ := Hands.get_error_iff.mp hh
          exact ⟨_, .unknown hq hne hh⟩
        | ok hand =>
          by_cases hsub : cards.Subperm hand.cards
          · rcases hf : k.currentFormat with fault | _ | f
            · exact ⟨_, .noFormat hq hne hh hsub hf⟩
            · exact ⟨_, .lead hq hne hh hsub hf⟩
            · exact ⟨_, .follow hq hne hh hsub hf⟩
          · exact ⟨_, .notInHand hq hne hh hsub⟩
    · exact ⟨_, .notYourTurn hq hid⟩

theorem judgement [RowOrder] (k : Trick) (id : PlayerId) (hands : Hands) (cards : List Card)
    (policy : DrawPolicy) : k.Judgement id hands cards policy (k.canPlay id hands cards policy) := by
  obtain ⟨verdict, h⟩ := k.exists_judgement id hands cards policy
  exact h.canPlay_eq ▸ h

end Trick

end TractorRules
