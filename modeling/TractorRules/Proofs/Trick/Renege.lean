import TractorRules.Proofs.Trick.Course

/-!
# Keeping to the led suit

Under every draw policy a follow takes as many cards of the led suit as the format has or the hand
holds, and where shapes are ignored nothing more is asked (`no_renege`).  The policies differ in what
they refuse for its shape only.
-/

namespace TractorRules

namespace Trick

variable {k : Trick} {f : TrickFormat} {id : PlayerId} {hands : Hands} {hand : Hand}
  {held cards : List Card} {policy : DrawPolicy}

/-- Just enough cards, and among them as many of the led suit as can be asked for. -/
def KeepsToSuit (k : Trick) (f : TrickFormat) (hand : Hand) (cards : List Card) : Prop :=
  cards.length = f.size ∧
    (k.cardsOfSuit f.suit cards).length = min f.size (k.cardsOfSuit f.suit hand.cards).length

theorem cardsOfSuit_subperm {suit : EffectiveSuit} (h : cards.Subperm held) :
    (k.cardsOfSuit suit cards).Subperm (k.cardsOfSuit suit held) := h.filter _

/-! ### What is asked of a follow -/

theorem checkFollow_eq [RowOrder] (k : Trick) (f : TrickFormat) (hand : Hand) (cards : List Card)
    (policy : DrawPolicy) :
    k.checkFollow f hand cards policy =
      if cards.length ≠ f.size then .error (.wrongNumberOfCards f.size cards.length)
      else if (k.cardsOfSuit f.suit cards).length < f.size then
        if (k.cardsOfSuit f.suit cards).isPerm (k.cardsOfSuit f.suit hand.cards) then .ok ()
        else .error .wrongSuit
      else k.verdict (f.decomposition policy) (k.cardsOfSuit f.suit hand.cards)
        (k.cardsOfSuit f.suit cards) policy := rfl

theorem verdict_cases (k : Trick) (rows : List Shape) (held cards : List Card)
    (policy : DrawPolicy) :
    k.verdict rows held cards policy = .ok () ∨
      k.verdict rows held cards policy = .error .wrongShape := by
  unfold verdict
  split
  · split
    · exact Or.inl rfl
    · exact Or.inr rfl
  · exact Or.inl rfl

/-- Any cards, if there are enough of them, answer the row of single cards. -/
theorem verdict_noFormat [RowOrder] (h : f.size ≤ cards.length) :
    k.verdict (f.decomposition .noFormatBasedDraw) held cards .noFormatBasedDraw = .ok () := by
  have hanswer : canMatch k.trump cards (List.replicate f.size .single) .noFormatBasedDraw = true :=
    canMatch_singles h
  rw [TrickFormat.decomposition_noFormat]
  cases hheld : canMatch k.trump held (List.replicate f.size .single) .noFormatBasedDraw with
  | true => exact (verdict_of_find (List.find?_cons_of_pos hheld)).mpr hanswer
  | false => simp [verdict, hheld]

theorem keepsToSuit_of_checkFollow [RowOrder] (hsub : cards.Subperm hand.cards)
    (h : k.checkFollow f hand cards policy = .ok ()) : k.KeepsToSuit f hand cards := by
  have hlen := length_of_checkFollow h
  have hsuit : (k.cardsOfSuit f.suit cards).Subperm (k.cardsOfSuit f.suit hand.cards) :=
    cardsOfSuit_subperm hsub
  have hle : (k.cardsOfSuit f.suit cards).length ≤ cards.length := List.length_filter_le _ _
  have hheld := hsuit.length_le
  refine ⟨hlen, ?_⟩
  rw [checkFollow_eq, if_neg (by simpa using hlen)] at h
  by_cases hshort : (k.cardsOfSuit f.suit cards).length < f.size
  · rw [if_pos hshort] at h
    split at h
    · rename_i hperm
      have hall := (List.isPerm_iff.mp hperm).length_eq
      omega
    · cases h
  · omega

theorem checkFollow_noFormat [RowOrder] (hsub : cards.Subperm hand.cards)
    (h : k.KeepsToSuit f hand cards) :
    k.checkFollow f hand cards .noFormatBasedDraw = .ok () := by
  obtain ⟨hlen, hcount⟩ := h
  have hsuit : (k.cardsOfSuit f.suit cards).Subperm (k.cardsOfSuit f.suit hand.cards) :=
    cardsOfSuit_subperm hsub
  rw [checkFollow_eq, if_neg (by simpa using hlen)]
  by_cases hshort : (k.cardsOfSuit f.suit cards).length < f.size
  · have hperm : (k.cardsOfSuit f.suit cards).Perm (k.cardsOfSuit f.suit hand.cards) :=
      hsuit.perm_of_length_le (by omega)
    rw [if_pos hshort, if_pos (List.isPerm_iff.mpr hperm)]
  · rw [if_neg hshort]
    exact verdict_noFormat (by omega)

/-- Two policies judge a follow alike, unless one of them refuses its shape. -/
theorem checkFollow_agree [RowOrder] (k : Trick) (f : TrickFormat) (hand : Hand) (cards : List Card)
    (policy policy' : DrawPolicy) :
    k.checkFollow f hand cards policy = k.checkFollow f hand cards policy' ∨
      k.checkFollow f hand cards policy = .error .wrongShape ∨
      k.checkFollow f hand cards policy' = .error .wrongShape := by
  rw [checkFollow_eq, checkFollow_eq]
  split
  · exact Or.inl rfl
  · split
    · exact Or.inl rfl
    · rcases k.verdict_cases (f.decomposition policy) _ _ policy with hok | hwrong
      · rcases k.verdict_cases (f.decomposition policy') _ _ policy' with hok' | hwrong'
        · exact Or.inl (hok.trans hok'.symm)
        · exact Or.inr (Or.inr hwrong')
      · exact Or.inr (Or.inl hwrong)

/-! ### Plays -/

/-- The policy is asked only about a follow of cards that are in the hand. -/
theorem canPlay_cases [RowOrder] (k : Trick) (id : PlayerId) (hands : Hands) (cards : List Card) :
    (∀ policy policy', k.canPlay id hands cards policy = k.canPlay id hands cards policy') ∨
      ∃ f hand, cards.Subperm hand.cards ∧
        ∀ policy, k.canPlay id hands cards policy =
          (k.checkFollow f hand cards policy).mapError .play := by
  obtain ⟨verdict, hcase⟩ := k.exists_judgement id hands cards .noProtections
  have hsame {verdict : Except RulesFault Unit}
      (h : ∀ policy, k.Judgement id hands cards policy verdict) (policy policy' : DrawPolicy) :
      k.canPlay id hands cards policy = k.canPlay id hands cards policy' := by
    rw [(h policy).canPlay_eq, (h policy').canPlay_eq]
  cases hcase with
  | complete hq => exact Or.inl (hsame fun _ => .complete hq)
  | notYourTurn hq hid => exact Or.inl (hsame fun _ => .notYourTurn hq hid)
  | noCards hq hne => exact Or.inl (hsame fun _ => .noCards hq hne)
  | unknown hq hne hh => exact Or.inl (hsame fun _ => .unknown hq hne hh)
  | notInHand hq hne hh hsub => exact Or.inl (hsame fun _ => .notInHand hq hne hh hsub)
  | noFormat hq hne hh hsub hf => exact Or.inl (hsame fun _ => .noFormat hq hne hh hsub hf)
  | lead hq hne hh hsub hf => exact Or.inl (hsame fun _ => .lead hq hne hh hsub hf)
  | follow hq hne hh hsub hf =>
    exact Or.inr ⟨_, _, hsub, fun _ => (Judgement.follow hq hne hh hsub hf).canPlay_eq⟩

theorem canPlay_agree [RowOrder] (policy policy' : DrawPolicy) :
    k.canPlay id hands cards policy = k.canPlay id hands cards policy' ∨
      k.canPlay id hands cards policy = .error (.play .wrongShape) ∨
      k.canPlay id hands cards policy' = .error (.play .wrongShape) := by
  rcases k.canPlay_cases id hands cards with hsame | ⟨f, hand, -, hfollow⟩
  · exact Or.inl (hsame policy policy')
  · rw [hfollow policy, hfollow policy']
    rcases k.checkFollow_agree f hand cards policy policy' with heq | hwrong | hwrong
    · exact Or.inl (congrArg _ heq)
    · exact Or.inr (Or.inl (congrArg _ hwrong))
    · exact Or.inr (Or.inr (congrArg _ hwrong))

/-- What some policy accepts is accepted where shapes are ignored. -/
theorem canPlay_noFormat [RowOrder] (h : k.canPlay id hands cards policy = .ok ()) :
    k.canPlay id hands cards .noFormatBasedDraw = .ok () := by
  rcases k.canPlay_cases id hands cards with hsame | ⟨f, hand, hsub, hfollow⟩
  · exact (hsame _ _).trans h
  · rw [hfollow, mapError_eq_ok] at h
    rw [hfollow, mapError_eq_ok]
    exact checkFollow_noFormat hsub (keepsToSuit_of_checkFollow hsub h)

/-- An accepted follow is of cards in the hand, as many as the format has, and with as many of the led
suit as it can have; where shapes are ignored all such follows are accepted, and so whatever another
policy accepts.  On any input two policies answer alike, unless one of them refuses the shape. -/
theorem no_renege [RowOrder] (k : Trick) (id : PlayerId) (hands : Hands) (cards : List Card) :
    (∀ f policy, k.currentFormat = .ok (some f) → k.canPlay id hands cards policy = .ok () →
      ∃ hand, hands.get id = .ok hand ∧ cards.Subperm hand.cards ∧ k.KeepsToSuit f hand cards) ∧
    (∀ f hand queue, k.queue = id :: queue → k.currentFormat = .ok (some f) → 1 ≤ f.size →
      hands.get id = .ok hand → cards.Subperm hand.cards → k.KeepsToSuit f hand cards →
      k.canPlay id hands cards .noFormatBasedDraw = .ok ()) ∧
    (∀ policy, k.canPlay id hands cards policy = .ok () →
      k.canPlay id hands cards .noFormatBasedDraw = .ok ()) ∧
    ∀ policy policy',
      k.canPlay id hands cards policy = k.canPlay id hands cards policy' ∨
        k.canPlay id hands cards policy = .error (.play .wrongShape) ∨
        k.canPlay id hands cards policy' = .error (.play .wrongShape) := by
  refine ⟨fun f policy hf h => ?_, fun f hand queue hq hf hn hh hsub hkeeps => ?_,
    fun _ => canPlay_noFormat, canPlay_agree⟩
  · obtain ⟨-, hand, -, -, hh, hsub, hcase⟩ := canPlay_eq_ok_iff.mp h
    refine ⟨hand, hh, hsub, ?_⟩
    rcases hcase with ⟨hnone, -⟩ | ⟨f', hf', hfollow⟩
    · rw [hf] at hnone
      cases hnone
    · rw [hf, Except.ok.injEq, Option.some.injEq] at hf'
      subst hf'
      exact keepsToSuit_of_checkFollow hsub hfollow
  · have hne : cards ≠ [] := by
      rintro rfl
      have hlen := hkeeps.1
      rw [List.length_nil] at hlen
      omega
    rw [canPlay_follow hq hne hh hsub hf, mapError_eq_ok]
    exact checkFollow_noFormat hsub hkeeps

section

open scoped RowOrder

/-- Where shapes are ignored, a pair is followed by two different cards out of a triple and a single. -/
theorem pair_followed_by_singles :
    pairTrick.KeepsToSuit pairFormat tripleHand [spade 3, spade 9] ∧
      pairTrick.canPlay 1 tripleHands [spade 3, spade 9] .noFormatBasedDraw = .ok () := by
  obtain ⟨-, hsufficient, -⟩ := no_renege pairTrick 1 tripleHands [spade 3, spade 9]
  have hkeeps : pairTrick.KeepsToSuit pairFormat tripleHand [spade 3, spade 9] := ⟨rfl, rfl⟩
  have hsub : [spade 3, spade 9].Subperm tripleHand.cards := by decide
  exact ⟨hkeeps, hsufficient pairFormat tripleHand [2] rfl rfl (by decide) rfl hsub hkeeps⟩

end

end Trick

end TractorRules
