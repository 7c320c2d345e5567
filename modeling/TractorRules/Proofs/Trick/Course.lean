import TractorRules.Proofs.Grouping.Cover
import TractorRules.Proofs.Trick.Judgement

/-!
# The course of a trick

What a play does (`TrickState.play_eq_ok_iff`), what stays true from play to play
(`TrickState.Invariant`), and that the front player always has a play (`Invariant.exists_play`).
Together they say that a trick comes to its end without losing a card (`course_of_trick`).
-/

namespace TractorRules

/-! ### Accepted plays -/

namespace Trick

variable {k : Trick} {id : PlayerId} {hands : Hands} {cards : List Card} {policy : DrawPolicy}

theorem checkLead_eq_ok_iff :
    k.checkLead cards = .ok () ↔ ∃ suit, ∀ c ∈ cards, k.trump.effectiveSuit c = suit := by
  cases cards with
  | nil => exact ⟨fun _ => ⟨.trump, by simp⟩, fun _ => rfl⟩
  | cons first rest =>
    have hall : (rest.all fun c => k.trump.effectiveSuit c == k.trump.effectiveSuit first) = true ↔
        ∀ c ∈ rest, k.trump.effectiveSuit c = k.trump.effectiveSuit first := by simp
    rw [checkLead]
    constructor
    · intro h
      split at h
      · rename_i hrest
        exact ⟨_, List.forall_mem_cons.mpr ⟨rfl, hall.mp hrest⟩⟩
      · simp at h
    · intro hspec
      obtain ⟨suit, hsuit⟩ := hspec
      obtain ⟨hfirst, hrest⟩ := List.forall_mem_cons.mp hsuit
      rw [if_pos (hall.mpr fun c hc => (hrest c hc).trans hfirst.symm)]

theorem length_of_checkFollow [RowOrder] {f : TrickFormat} {hand : Hand}
    (h : k.checkFollow f hand cards policy = .ok ()) : cards.length = f.size := by
  unfold checkFollow at h
  split at h
  · simp at h
  · rename_i hlen
    simpa using hlen

theorem canPlay_eq_ok_iff [RowOrder] :
    k.canPlay id hands cards policy = .ok () ↔
      ∃ queue hand, k.queue = id :: queue ∧ cards ≠ [] ∧ hands.get id = .ok hand ∧
        cards.Subperm hand.cards ∧
        (k.currentFormat = .ok none ∧ k.checkLead cards = .ok () ∨
          ∃ f, k.currentFormat = .ok (some f) ∧ k.checkFollow f hand cards policy = .ok ()) := by
  constructor
  · intro h
    have hcase := k.judgement id hands cards policy
    generalize k.canPlay id hands cards policy = verdict at hcase h
    cases hcase with
    | complete hq => cases h
    | notYourTurn hq hid => cases h
    | noCards hq hne => cases h
    | unknown hq hne hh => cases h
    | notInHand hq hne hh hsub => cases h
    | noFormat hq hne hh hsub hf => cases h
    | lead hq hne hh hsub hf => exact ⟨_, _, hq, hne, hh, hsub, Or.inl ⟨hf, mapError_eq_ok.mp h⟩⟩
    | follow hq hne hh hsub hf =>
      exact ⟨_, _, hq, hne, hh, hsub, Or.inr ⟨_, hf, mapError_eq_ok.mp h⟩⟩
  · intro hspec
    obtain ⟨queue, hand, hq, hne, hh, hsub, ⟨hf, hlead⟩ | ⟨f, hf, hfollow⟩⟩ := hspec
    · rw [(Judgement.lead hq hne hh hsub hf).canPlay_eq, hlead]
      rfl
    · rw [(Judgement.follow hq hne hh hsub hf).canPlay_eq, hfollow]
      rfl

/-! ### A play is always left -/

/-- A player with enough cards of the led suit has a play. -/
theorem exists_suited_play [RowOrder] {f : TrickFormat} {queue : List PlayerId} {hand : Hand}
    (hq : k.queue = id :: queue) (hf : k.currentFormat = .ok (some f)) (hn : 1 ≤ f.size)
    (hh : hands.get id = .ok hand)
    (henough : f.size ≤ (k.cardsOfSuit f.suit hand.cards).length) :
    ∃ cards, k.canPlay id hands cards policy = .ok () := by
  obtain ⟨row, hrow⟩ : ∃ row, (f.decomposition policy).find?
      (canMatch k.trump (k.cardsOfSuit f.suit hand.cards) · policy) = some row :=
    f.exists_binding_row henough
  have hheld := List.find?_some hrow
  obtain ⟨part, hsub, hlen, hmatch⟩ := exists_part_of_canMatch hheld
  rw [TrickFormat.size_of_mem_decomposition (List.mem_of_find?_eq_some hrow)] at hlen
  refine ⟨part, ?_⟩
  rw [canPlay_suited hq hf hn hh hsub hlen, mapError_eq_ok, verdict_of_find hrow]
  exact hmatch

/-- A player with fewer cards of the led suit than were led plays all of them and any others. -/
theorem exists_short_play [RowOrder] {f : TrickFormat} {queue : List PlayerId} {hand : Hand}
    (hq : k.queue = id :: queue) (hf : k.currentFormat = .ok (some f)) (hn : 1 ≤ f.size)
    (hh : hands.get id = .ok hand) (hall : f.size ≤ hand.cards.length)
    (hshort : (k.cardsOfSuit f.suit hand.cards).length < f.size) :
    ∃ cards, k.canPlay id hands cards policy = .ok () := by
  let others := hand.cards.filter fun c => !(k.trump.effectiveSuit c == f.suit)
  let held := k.cardsOfSuit f.suit hand.cards
  have hperm : (held ++ others).Perm hand.cards := List.filter_append_perm _ _
  have hlen : (held ++ others.take (f.size - held.length)).length = f.size := by
    have hsum := hperm.length_eq
    rw [List.length_append] at hsum
    rw [List.length_append, List.length_take]
    have hlt : held.length < f.size := hshort
    omega
  have hproposed : k.cardsOfSuit f.suit (held ++ others.take (f.size - held.length)) = held := by
    have hkeep : k.cardsOfSuit f.suit held = held :=
      cardsOfSuit_eq_self fun c hc => effectiveSuit_of_mem_cardsOfSuit hc
    have hdrop : k.cardsOfSuit f.suit (others.take (f.size - held.length)) = [] := by
      rw [cardsOfSuit, List.filter_eq_nil_iff]
      intro c hc
      have hother := (List.mem_filter.mp (List.mem_of_mem_take hc)).2
      simpa using hother
    rw [cardsOfSuit, List.filter_append]
    exact (congrArg₂ (· ++ ·) hkeep hdrop).trans (List.append_nil held)
  have hne : held ++ others.take (f.size - held.length) ≠ [] := by
    intro hnil
    rw [hnil, List.length_nil] at hlen
    omega
  have hsub : (held ++ others.take (f.size - held.length)).Subperm hand.cards :=
    (((List.take_sublist _ _).append_left held).subperm).trans hperm.subperm
  refine ⟨held ++ others.take (f.size - held.length), ?_⟩
  rw [canPlay_follow hq hne hh hsub hf, mapError_eq_ok, checkFollow]
  rw [if_neg (by simpa using hlen), hproposed]
  have hself : held.isPerm held = true := List.isPerm_iff.mpr (.refl _)
  simp only [show held.length < f.size from hshort, if_true]
  rw [if_pos hself]

end Trick

/-! ### One play -/

namespace TrickState

def after (s : TrickState) (id : PlayerId) (hand : Hand) (cards : List Card) : TrickState where
  trick := { s.trick with
    queue := s.trick.queue.tail
    played := s.trick.played ++ [⟨id, cards⟩] }
  hands := s.hands.set id (hand.without cards)

variable {s s' : TrickState} {id : PlayerId} {cards : List Card} {policy : DrawPolicy}

theorem play_eq_ok_iff [RowOrder] :
    s.play id cards policy = .ok s' ↔
      s.trick.canPlay id s.hands cards policy = .ok () ∧
        ∃ hand, s.hands.get id = .ok hand ∧ s' = s.after id hand cards := by
  unfold play
  constructor
  · intro h
    cases hp : s.trick.canPlay id s.hands cards policy with
    | error e => simp [hp, bind, Except.bind] at h
    | ok u =>
      cases hh : s.hands.get id with
      | error e => simp [hp, hh, bind, Except.bind] at h
      | ok hand =>
        simp only [hp, hh, bind, Except.bind, pure, Except.pure, Except.ok.injEq] at h
        exact ⟨rfl, hand, rfl, h.symm⟩
  · intro hspec
    obtain ⟨hp, hand, hh, rfl⟩ := hspec
    rw [hp, hh]
    rfl

def Step [RowOrder] (policy : DrawPolicy) (s s' : TrickState) : Prop :=
  ∃ id queue cards, s.trick.queue = id :: queue ∧ s.play id cards policy = .ok s'

abbrev Plays [RowOrder] (policy : DrawPolicy) : TrickState → TrickState → Prop :=
  Relation.ReflTransGen (Step policy)

/-- Nobody has played, no format is given, and the players, all different, hold `h` cards each. -/
structure IsStart (s : TrickState) (h : Nat) : Prop where
  played : s.trick.played = []
  format : s.trick.format = none
  distinct : s.trick.queue.Nodup
  holds : ∀ id ∈ s.trick.queue, ∃ hand, s.hands.get id = .ok hand ∧ hand.cards.length = h
  pos : 1 ≤ h

/-! ### What stays true -/

/-- What holds from the start `s₀` of a trick with `h` cards in each hand to its end. -/
structure Invariant (s₀ s : TrickState) (h : Nat) : Prop where
  format : s.trick.format = none
  conserved : (s.hands.allCards ++ s.trick.played.flatMap PlayedCards.cards).Perm s₀.hands.allCards
  order : s.trick.played.map PlayedCards.id ++ s.trick.queue = s₀.trick.queue
  waiting : ∀ id ∈ s.trick.queue, ∃ hand, s.hands.get id = .ok hand ∧ hand.cards.length = h
  played : ∀ p ∈ s.trick.played, ∃ hand, s.hands.get p.id = .ok hand ∧
    hand.cards.length + p.cards.length = h
  lead : ∀ lead follows, s.trick.played = lead :: follows → lead.cards ≠ [] ∧
    (∃ suit, ∀ c ∈ lead.cards, s.trick.trump.effectiveSuit c = suit) ∧
    ∀ p ∈ follows, p.cards.length = lead.cards.length

variable {s₀ : TrickState} {h : Nat}

theorem IsStart.invariant (hs : s₀.IsStart h) : Invariant s₀ s₀ h where
  format := hs.format
  conserved := by
    rw [hs.played]
    exact .of_eq (List.append_nil _)
  order := by
    rw [hs.played]
    rfl
  waiting := hs.holds
  played := by simp [hs.played]
  lead := by simp [hs.played]

theorem Invariant.currentFormat_ok (hi : Invariant s₀ s h) {lead : PlayedCards}
    {follows : List PlayedCards} (hp : s.trick.played = lead :: follows) :
    ∃ f, s.trick.currentFormat = .ok (some f) ∧ f.size = lead.cards.length ∧
      ∀ c ∈ lead.cards, s.trick.trump.effectiveSuit c = f.suit := by
  obtain ⟨hne, ⟨suit, hsuit⟩, -⟩ := hi.lead lead follows hp
  obtain ⟨f, hf, rfl, -, hsize⟩ : ∃ f,
      TrickFormat.ofLead s.trick.trump s.trick.requirements lead.cards = .ok f ∧ f.suit = suit ∧
        f.trump = s.trick.trump ∧ f.size = lead.cards.length := TrickFormat.ofLead_ok hne hsuit
  refine ⟨f, ?_, hsize, hsuit⟩
  rw [Trick.currentFormat, hi.format, hp]
  simp only [hf]
  rfl

theorem Invariant.currentFormat_none (hi : Invariant s₀ s h) (hp : s.trick.played = []) :
    s.trick.currentFormat = .ok none := by rw [Trick.currentFormat, hi.format, hp]

/-- The plays after a play keep to the lead, if there was one, and are the lead otherwise. -/
theorem Invariant.lead_after [RowOrder] (hi : Invariant s₀ s h) {hand : Hand} (hne : cards ≠ [])
    (haccepted : s.trick.currentFormat = .ok none ∧ s.trick.checkLead cards = .ok () ∨
      ∃ f, s.trick.currentFormat = .ok (some f) ∧ s.trick.checkFollow f hand cards policy = .ok ())
    {lead : PlayedCards} {follows : List PlayedCards}
    (hp : s.trick.played ++ [⟨id, cards⟩] = lead :: follows) :
    lead.cards ≠ [] ∧ (∃ suit, ∀ c ∈ lead.cards, s.trick.trump.effectiveSuit c = suit) ∧
      ∀ p ∈ follows, p.cards.length = lead.cards.length := by
  cases hplayed : s.trick.played with
  | nil =>
    rw [hplayed, List.nil_append, List.cons.injEq] at hp
    obtain ⟨rfl, rfl⟩ := hp
    have hnone := hi.currentFormat_none hplayed
    rcases haccepted with ⟨-, hlead⟩ | ⟨f, hf, -⟩
    · exact ⟨hne, Trick.checkLead_eq_ok_iff.mp hlead, by simp⟩
    · rw [hnone] at hf
      cases hf
  | cons first rest =>
    rw [hplayed, List.cons_append, List.cons.injEq] at hp
    obtain ⟨rfl, rfl⟩ := hp
    obtain ⟨hfirst, hsuit, hrest⟩ := hi.lead first rest hplayed
    obtain ⟨f, hf, hsize, -⟩ := hi.currentFormat_ok hplayed
    refine ⟨hfirst, hsuit, ?_⟩
    intro p hpm
    cases List.mem_append.mp hpm with
    | inl hbefore => exact hrest p hbefore
    | inr hnow =>
      rw [List.mem_singleton.mp hnow, ← hsize]
      rcases haccepted with ⟨hnone, -⟩ | ⟨f', hf', hfollow⟩
      · rw [hf] at hnone
        cases hnone
      · rw [hf, Except.ok.injEq, Option.some.injEq] at hf'
        rw [hf']
        exact Trick.length_of_checkFollow hfollow

section After

variable {queue : List PlayerId} {hand : Hand} (hi : Invariant s₀ s h)
  (hn : s₀.trick.queue.Nodup) (hq : s.trick.queue = id :: queue) (hh : s.hands.get id = .ok hand)
  (hsub : cards.Subperm hand.cards)

include hi hn hq in
/-- The players are all different, so the hand that changes is nobody else's. -/
theorem Invariant.get_after {id' : PlayerId}
    (hid' : id' ∈ queue ∨ id' ∈ s.trick.played.map PlayedCards.id) :
    (s.after id hand cards).hands.get id' = s.hands.get id' := by
  have horder := hi.order
  rw [hq] at horder
  rw [← horder] at hn
  obtain ⟨-, hqueue, hdisjoint⟩ := List.nodup_append.mp hn
  have hother : id' ≠ id := by
    rintro rfl
    cases hid' with
    | inl hwaiting => exact (List.nodup_cons.mp hqueue).1 hwaiting
    | inr hplayed => exact hdisjoint _ hplayed _ List.mem_cons_self rfl
  rw [after, Hands.get_set, if_neg hother]

include hi hh hsub in
theorem Invariant.conserved_after :
    ((s.after id hand cards).hands.allCards ++
      (s.after id hand cards).trick.played.flatMap PlayedCards.cards).Perm s₀.hands.allCards := by
  have hset := Hands.allCards_set hh (Hand.without_append_perm hsub)
  apply List.Perm.trans _ hi.conserved
  rw [List.perm_iff_count]
  intro c
  have hcount := hset.count_eq c
  simp only [after, List.flatMap_append, List.flatMap_singleton, List.count_append] at hcount ⊢
  omega

include hi hn hq in
theorem Invariant.waiting_after : ∀ id' ∈ (s.after id hand cards).trick.queue, ∃ hand',
    (s.after id hand cards).hands.get id' = .ok hand' ∧ hand'.cards.length = h := by
  intro id' hid'
  have hid' : id' ∈ queue := by simpa [after, hq] using hid'
  rw [hi.get_after hn hq (Or.inl hid')]
  exact hi.waiting id' (by rw [hq]; exact List.mem_cons_of_mem _ hid')

include hi hn hq hh hsub in
theorem Invariant.played_after : ∀ p ∈ (s.after id hand cards).trick.played, ∃ hand',
    (s.after id hand cards).hands.get p.id = .ok hand' ∧
      hand'.cards.length + p.cards.length = h := by
  intro p hp
  cases List.mem_append.mp hp with
  | inl hbefore =>
    rw [hi.get_after hn hq (Or.inr (List.mem_map_of_mem hbefore))]
    exact hi.played p hbefore
  | inr hnow =>
    have hall : hand.cards.length = h := by
      obtain ⟨hand', hget, hlen⟩ := hi.waiting id (by rw [hq]; exact List.mem_cons_self)
      rw [Except.ok.inj (hh.symm.trans hget), hlen]
    rw [List.mem_singleton.mp hnow]
    refine ⟨hand.without cards, by rw [after, Hands.get_set, if_pos rfl], ?_⟩
    rw [← hall, ← (Hand.without_append_perm hsub).length_eq, List.length_append]

end After

theorem Invariant.step [RowOrder] (hi : Invariant s₀ s h) (hn : s₀.trick.queue.Nodup)
    (hstep : Step policy s s') : Invariant s₀ s' h := by
  obtain ⟨id, queue, cards, hq, hplay⟩ := hstep
  obtain ⟨haccepted, hand, hh, rfl⟩ := play_eq_ok_iff.mp hplay
  obtain ⟨-, hand', -, hne, hh', hsub, hcase⟩ := Trick.canPlay_eq_ok_iff.mp haccepted
  obtain rfl : hand = hand' := Except.ok.inj (hh.symm.trans hh')
  exact {
    format := hi.format
    conserved := hi.conserved_after hh hsub
    order := by
      rw [← hi.order]
      simp [after, hq]
    waiting := hi.waiting_after hn hq
    played := hi.played_after hn hq hh hsub
    lead := fun _ _ => hi.lead_after hne hcase }

theorem IsStart.invariant_of_plays [RowOrder] (hs : s₀.IsStart h) (hr : Plays policy s₀ s) :
    Invariant s₀ s h := by
  induction hr with
  | refl => exact hs.invariant
  | tail _ hstep ih => exact ih.step hs.distinct hstep

/-! ### The format -/

theorem Step.exists_played [RowOrder] (hstep : Step policy s s') :
    ∃ p, s'.trick.played = s.trick.played ++ [p] := by
  obtain ⟨id, queue, cards, -, hplay⟩ := hstep
  obtain ⟨-, hand, -, rfl⟩ := play_eq_ok_iff.mp hplay
  exact ⟨_, rfl⟩

/-- The format stays that of the lead, whatever is played after it. -/
theorem Step.currentFormat_eq [RowOrder] (hstep : Step policy s s') (hp : s.trick.played ≠ []) :
    s'.trick.currentFormat = s.trick.currentFormat := by
  obtain ⟨id, queue, cards, -, hplay⟩ := hstep
  obtain ⟨-, hand, -, rfl⟩ := play_eq_ok_iff.mp hplay
  obtain ⟨lead, follows, hp⟩ := List.exists_cons_of_ne_nil hp
  simp only [after, Trick.currentFormat, hp, List.cons_append]
  cases s.trick.format <;> rfl

theorem Plays.currentFormat_eq [RowOrder] (hr : Plays policy s s') (hp : s.trick.played ≠ []) :
    s'.trick.currentFormat = s.trick.currentFormat ∧ s'.trick.played ≠ [] := by
  induction hr with
  | refl => exact ⟨rfl, hp⟩
  | tail _ hstep ih =>
    obtain ⟨heq, hne⟩ := ih
    obtain ⟨p, hplayed⟩ := hstep.exists_played
    exact ⟨(hstep.currentFormat_eq hne).trans heq, by simp [hplayed]⟩

/-! ### Progress -/

theorem Invariant.exists_play [RowOrder] (hi : Invariant s₀ s h) (hpos : 1 ≤ h)
    {queue : List PlayerId} (hq : s.trick.queue = id :: queue) :
    ∃ cards, s.trick.canPlay id s.hands cards policy = .ok () := by
  obtain ⟨hand, hh, hlen⟩ := hi.waiting id (by rw [hq]; exact List.mem_cons_self)
  cases hplayed : s.trick.played with
  | nil =>
    have hne : hand.cards ≠ [] := by
      intro hnil
      rw [hnil, List.length_nil] at hlen
      omega
    obtain ⟨c, hc⟩ := List.exists_mem_of_ne_nil _ hne
    refine ⟨[c], Trick.canPlay_eq_ok_iff.mpr ⟨queue, hand, hq, by simp, hh, ?_, Or.inl ?_⟩⟩
    · exact List.singleton_subperm_iff.mpr hc
    · have hlead : s.trick.checkLead [c] = .ok () :=
        Trick.checkLead_eq_ok_iff.mpr ⟨s.trick.trump.effectiveSuit c, by simp⟩
      exact ⟨hi.currentFormat_none hplayed, hlead⟩
  | cons lead follows =>
    obtain ⟨f, hf, hsize, -⟩ := hi.currentFormat_ok hplayed
    have hn : 1 ≤ f.size := by
      rw [hsize]
      exact List.length_pos_iff.mpr (hi.lead lead follows hplayed).1
    have hall : f.size ≤ hand.cards.length := by
      obtain ⟨leader, -, hled⟩ := hi.played lead (by rw [hplayed]; exact List.mem_cons_self)
      omega
    by_cases henough : f.size ≤ (s.trick.cardsOfSuit f.suit hand.cards).length
    · exact Trick.exists_suited_play hq hf hn hh henough
    · exact Trick.exists_short_play hq hf hn hh hall (by omega)

theorem Invariant.exists_step [RowOrder] (hi : Invariant s₀ s h) (hpos : 1 ≤ h)
    (hq : s.trick.queue ≠ []) :
    ∃ s', Step policy s s' ∧ s'.trick.queue.length < s.trick.queue.length := by
  obtain ⟨id, queue, hq⟩ := List.exists_cons_of_ne_nil hq
  obtain ⟨cards, hcards⟩ : ∃ cards, s.trick.canPlay id s.hands cards policy = .ok () :=
    hi.exists_play hpos hq
  obtain ⟨hand, hh, -⟩ := hi.waiting id (by rw [hq]; exact List.mem_cons_self)
  refine ⟨s.after id hand cards, ⟨id, queue, cards, hq, ?_⟩, by simp [after, hq]⟩
  exact play_eq_ok_iff.mpr ⟨hcards, hand, hh, rfl⟩

/-- Everybody who has played holds as many cards as the others who have. -/
theorem Invariant.exists_length (hi : Invariant s₀ s h) :
    ∃ n, ∀ p ∈ s.trick.played, ∃ hand, s.hands.get p.id = .ok hand ∧ hand.cards.length = n := by
  cases hplayed : s.trick.played with
  | nil => exact ⟨h, by simp⟩
  | cons lead follows =>
    refine ⟨h - lead.cards.length, ?_⟩
    intro p hp
    have hsame : p.cards.length = lead.cards.length := by
      rcases List.mem_cons.mp hp with rfl | hfollow
      · rfl
      · exact (hi.lead lead follows hplayed).2.2 p hfollow
    obtain ⟨hand, hh, hlen⟩ := hi.played p (by rw [hplayed]; exact hp)
    exact ⟨hand, hh, by omega⟩

/-- A trick comes to its end, however it has been played so far. -/
theorem Invariant.exists_end [RowOrder] (hi : Invariant s₀ s h) (hn : s₀.trick.queue.Nodup)
    (hpos : 1 ≤ h) :
    ∃ s', Plays policy s s' ∧ s'.trick.queue = [] := by
  generalize hlen : s.trick.queue.length = n
  induction n using Nat.strongRecOn generalizing s with
  | ind n ih =>
    by_cases hq : s.trick.queue = []
    · exact ⟨s, .refl, hq⟩
    · obtain ⟨s', hstep, hless⟩ := hi.exists_step hpos hq
      obtain ⟨s'', hplays, hend⟩ := ih _ (hlen ▸ hless) (hi.step hn hstep) rfl
      exact ⟨s'', .head hstep hplays, hend⟩

end TrickState

open TrickState

/-- In every state that accepted plays lead to: no card is lost; every follow has the number of cards
of the lead; the format is and stays that of the lead; the front player has a play, and the trick can
be played to its end; and at the end every player has played once and all hold equally many cards. -/
theorem course_of_trick [RowOrder] {policy : DrawPolicy} {s₀ s : TrickState} {h : Nat}
    (hs : s₀.IsStart h) (hr : Plays policy s₀ s) :
    (s.hands.allCards ++ s.trick.played.flatMap PlayedCards.cards).Perm s₀.hands.allCards ∧
    (∀ lead follows, s.trick.played = lead :: follows →
      (∀ p ∈ follows, p.cards.length = lead.cards.length) ∧
      ∃ f, s.trick.currentFormat = .ok (some f) ∧ f.size = lead.cards.length ∧
        (∀ c ∈ lead.cards, s.trick.trump.effectiveSuit c = f.suit) ∧
        ∀ s', Plays policy s s' → s'.trick.currentFormat = .ok (some f)) ∧
    (∀ id queue, s.trick.queue = id :: queue →
      ∃ cards, s.trick.canPlay id s.hands cards policy = .ok ()) ∧
    (∃ s', Plays policy s s' ∧ s'.trick.queue = []) ∧
    (s.trick.queue = [] → s.trick.played.map PlayedCards.id = s₀.trick.queue ∧
      ∃ n, ∀ id ∈ s₀.trick.queue, ∃ hand, s.hands.get id = .ok hand ∧ hand.cards.length = n) := by
  have hi := hs.invariant_of_plays hr
  refine ⟨hi.conserved, ?_, ?_, hi.exists_end hs.distinct hs.pos, ?_⟩
  · intro lead follows hp
    obtain ⟨f, hf, hsize, hsuit⟩ := hi.currentFormat_ok hp
    refine ⟨(hi.lead lead follows hp).2.2, f, hf, hsize, hsuit, ?_⟩
    intro s' hr'
    rw [(hr'.currentFormat_eq (by simp [hp])).1, hf]
  · intro id queue hq
    exact hi.exists_play hs.pos hq
  · intro hq
    have horder := hi.order
    rw [hq, List.append_nil] at horder
    obtain ⟨n, hn⟩ := hi.exists_length
    refine ⟨horder, n, ?_⟩
    intro id hid
    rw [← horder] at hid
    obtain ⟨p, hp, rfl⟩ := List.mem_map.mp hid
    exact hn p hp

/-- Two players with a pair of spades each, before the lead. -/
def pairsDealt : TrickState where
  trick := { trump := pairFormat.trump, queue := [1, 2] }
  hands := .ofList [(1, .ofCards [spade 3, spade 3]), (2, .ofCards [spade 4, spade 4])]

theorem isStart_pairsDealt : pairsDealt.IsStart 2 where
  played := rfl
  format := rfl
  distinct := by decide
  holds := by
    intro id hid
    rcases List.mem_pair.mp hid with rfl | rfl
    · exact ⟨.ofCards [spade 3, spade 3], rfl, rfl⟩
    · exact ⟨.ofCards [spade 4, spade 4], rfl, rfl⟩
  pos := by decide

section

open scoped RowOrder

theorem led_pair_is_answered :
    ∃ s s', pairsDealt.play 1 [spade 3, spade 3] .noProtections = .ok s ∧
      Plays .noProtections s s' ∧ s'.trick.queue = [] := by
  let s := pairsDealt.after 1 (.ofCards [spade 3, spade 3]) [spade 3, spade 3]
  have hplay : pairsDealt.play 1 [spade 3, spade 3] .noProtections = .ok s := rfl
  have hr : Plays .noProtections pairsDealt s := .single ⟨1, [2], _, rfl, hplay⟩
  obtain ⟨-, -, -, ⟨s', hplays, hend⟩, -⟩ := course_of_trick isStart_pairsDealt hr
  exact ⟨s, s', hplay, hplays, hend⟩

end

end TractorRules
