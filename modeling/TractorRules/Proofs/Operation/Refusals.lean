import TractorRules.Proofs.Operation.Reading
import TractorRules.Proofs.Grouping.Cover
import TractorRules.Proofs.Trick.Judgement
import TractorRules.Proofs.Scoring.Step

/-!
# Refusals of requests that were read

Once a request is read, few things are left to refuse it for: a player without a hand, a lead on record
that has no format, and decks without a step (`Inputs.Refused`).  Nothing else fails
(`refused_of_read_iff`), because whatever the engine takes out of a list, divides by or builds is there
(`NothingMissing`).
-/

namespace TractorRules

open Wire

/-! ### What the engine takes for granted -/

/-- The elements, least numbers, divisors and units that the engine uses without a way to go on when
they are missing. -/
structure NothingMissing : Prop where
  firstGrouping : ∀ t req (cards : List Card), cards ≠ [] →
    ∃ g, (groupings t req cards (some 1)).head? = some g
  suitGrouping : ∀ t req cards, ∀ group ∈ Trump.groupBySuit t cards,
    ∃ g, (suitGroupings t req group.cards).head? = some g
  leastHeld : ∀ t usable c order, ∀ run ∈ Trump.climbs t usable c [] order, ∀ held : Tally,
    ∃ n, (run.map held.count).min? = some n
  tractorOfRun : ∀ t usable c order, ∀ run ∈ Trump.climbs t usable c [] order,
    ∀ (req : TractorRequirements) n, req.minCount ≤ n → ∃ r, Tractor.ofNat? n run = some r
  membersHeld : ∀ t req cards, ∀ r ∈ candidateTractors t req (Tally.ofList cards) cards.eraseDups,
    ∀ c ∈ r.members, c ∈ cards
  timesTaken : ∀ (r : Tractor) (held : Tally),
    0 < r.count ∧ ∃ n, (r.members.map fun c => held.count c / r.count).min? = some n
  placedTuple : ∀ (s : UnitShape) c, ∃ r, Repeated.ofNat? c s.copies = some r
  placedRun : ∀ t usable order (s : UnitShape), s.groups ≠ 1 →
    ∀ run ∈ Trump.runsOfLength t usable s.groups order, ∃ r, Tractor.ofNat? s.copies run = some r
  highestTuple : ∀ u : UnitShape, ∃ n, u.tuples.max? = some n
  step : ∀ (p : ScoringParameters) decks step, p.stepSize decks = .ok step → 0 < step
  lastThreshold : ∀ (p : ScoringParameters) decks smaller table,
    p.explain decks smaller = .ok table → ∃ last, table.getLast? = some last

theorem exists_head?_of_ne_nil {α : Type} {xs : List α} (h : xs ≠ []) : ∃ x, xs.head? = some x :=
  ⟨_, List.head?_eq_some_head h⟩

theorem exists_min?_of_ne_nil {ns : List Nat} (h : ns ≠ []) : ∃ n, ns.min? = some n := by
  cases hm : ns.min? with
  | none => exact absurd (List.min?_eq_none_iff.mp hm) h
  | some n => exact ⟨n, rfl⟩

theorem exists_tractor {n : Nat} {run : List Card} (hn : 0 < n) (hrun : 2 ≤ run.length) :
    ∃ r, Tractor.ofNat? n run = some r := ⟨_, dif_pos ⟨hn, hrun⟩⟩

theorem Trump.two_le_length_of_mem_climbs {t : Trump} {usable : Card → Bool} {c : Card}
    {order run : List Card} (h : run ∈ t.climbs usable c [] order) : 2 ≤ run.length := by
  obtain ⟨more, hmore, rfl, -⟩ := mem_climbs.mp h
  have hpos := List.length_pos_of_ne_nil hmore
  rw [List.length_append, List.length_reverse, List.length_singleton]
  omega

theorem nothingMissing : NothingMissing where
  firstGrouping t req cards hne := by
    have hall : groupings t req cards none ≠ [] := groupings_ne_nil hne
    obtain ⟨g, hg⟩ := exists_head?_of_ne_nil hall
    refine ⟨g, ?_⟩
    rw [groupings_eq_cut, Budget.cut, List.head?_take, if_neg (by simp), hg]
  suitGrouping _ _ _ _ _ := ⟨_, rfl⟩
  leastHeld t usable c order run hrun held := by
    have htwo := Trump.two_le_length_of_mem_climbs hrun
    refine exists_min?_of_ne_nil fun hnil => ?_
    rw [List.map_eq_nil_iff] at hnil
    rw [hnil] at htwo
    cases htwo
  tractorOfRun t usable c order run hrun req n hn := by
    have hcount := req.two_le_minCount
    exact exists_tractor (by omega) (Trump.two_le_length_of_mem_climbs hrun)
  membersHeld t req cards r hr c hc := by
    obtain ⟨-, hsub, -⟩ := mem_candidateTractors_of_sublist.mp hr
    exact (Copies.eraseDups_sublist cards).subset (hsub.subset hc)
  timesTaken r held := by
    refine ⟨r.count_pos, exists_min?_of_ne_nil fun hnil => ?_⟩
    exact r.members_ne_nil (List.map_eq_nil_iff.mp hnil)
  placedTuple s c := ⟨_, dif_pos s.copies_pos⟩
  placedRun t usable order s hs run hrun := by
    obtain ⟨hlen, -⟩ := (Trump.mem_runsOfLength_of_sublist s.groups_pos).mp hrun
    have hpos := s.groups_pos
    exact exists_tractor s.copies_pos (by omega)
  highestTuple u := by
    cases hm : u.tuples.max? with
    | none =>
      have hnil := List.max?_eq_none_iff.mp hm
      have hlen : u.tuples.length = u.groups := List.length_replicate
      have hpos := u.groups_pos
      rw [hnil, List.length_nil] at hlen
      omega
    | some n => exact ⟨n, rfl⟩
  step _ _ _ h := ScoringParameters.stepSize_pos h
  lastThreshold _ _ _ _ h := ScoringParameters.exists_last_threshold h

/-! ### What is left to refuse -/

namespace Inputs

def operation : Inputs → Operation
  | .plays .. => .findViablePlays
  | .rows .. => .decomposeTrickFormat
  | .play .. => .canPlayCards
  | .bids .. => .findValidBids
  | .suits .. => .sortAndGroupCards
  | .reach .. => .nextThresholdReachable
  | .table .. => .explainScoring
  | .size .. => .computeDeckLen
  | .score .. => .computeScore

/-- A play that gets as far as the format, in a trick whose format is left to its first play. -/
structure AsksForLead (k : Trick) (id : PlayerId) (hands : Hands) (cards lead : List Card) : Prop where
  next : ∃ queue, k.queue = id :: queue
  cards_ne_nil : cards ≠ []
  held : ∃ hand, hands.get id = .ok hand ∧ cards.Subperm hand.cards
  format_eq : k.format = none
  played : ∃ leader rest, k.played = ⟨leader, lead⟩ :: rest

/-- What results are asked of, if they need a step. -/
def scoring? : Inputs → Option (ScoringParameters × List Deck)
  | .reach p decks _ _ => some (p, decks)
  | .table p decks _ => some (p, decks)
  | .score p decks _ _ => some (p, decks)
  | _ => none

/-- What inputs are refused for. -/
inductive Refused : Inputs → RulesFault → Prop
  | unknownPlayer {f : TrickFormat} {hands : Hands} {id : PlayerId} {policy : DrawPolicy}
    (h : hands.entries.lookup id = none) : Refused (.rows f hands id policy) (.unknownPlayer id)
  | emptyLead {k : Trick} {id : PlayerId} {hands : Hands} {cards : List Card} {policy : DrawPolicy}
    (h : AsksForLead k id hands cards []) : Refused (.play k id hands cards policy) .emptyLead
  | mixedLead {k : Trick} {id : PlayerId} {hands : Hands} {cards lead : List Card}
    {policy : DrawPolicy} (h : AsksForLead k id hands cards lead)
    (hmixed : ¬∃ suit, ∀ c ∈ lead, k.trump.effectiveSuit c = suit) :
    Refused (.play k id hands cards policy) .mixedLead
  | noStep {inputs : Inputs} {p : ScoringParameters} {decks : List Deck} {fault : ScoringFault}
    (hs : inputs.scoring? = some (p, decks)) (h : p.NoStep decks fault) :
    Refused inputs (.scoring fault)

end Inputs

/-! ### The format of the lead -/

theorem Trick.currentFormat_error_iff {k : Trick} {cause : RulesFault} :
    k.currentFormat = .error cause ↔ k.format = none ∧ ∃ play rest, k.played = play :: rest ∧
      TrickFormat.ofLead k.trump k.requirements play.cards = .error cause := by
  unfold currentFormat
  cases k.format with
  | some f => simp
  | none =>
    cases k.played with
    | nil => simp
    | cons play rest =>
      cases hlead : TrickFormat.ofLead k.trump k.requirements play.cards <;>
        simp [Except.map, hlead]

/-! ### Every refusal -/

variable {op : Operation} {request : Json} {inputs : Inputs} {fault : Fault} {cause : RulesFault}

namespace Inputs

/-- Of what is said of a play, only the faults of the recorded lead are not answered with no. -/
theorem playable_error_iff [RowOrder] {k : Trick} {id : PlayerId} {hands : Hands}
    {cards : List Card} {policy : DrawPolicy} :
    playable (k.canPlay id hands cards policy) = .error fault ↔
      ∃ cause, Refused (.play k id hands cards policy) cause ∧ fault = .rules cause := by
  constructor
  · intro h
    have hcase := k.judgement id hands cards policy
    generalize k.canPlay id hands cards policy = verdict at hcase h
    cases hcase with
    | complete hq => cases h
    | notYourTurn hq hid => cases h
    | noCards hq hne => cases h
    | unknown hq hne hh => cases h
    | notInHand hq hne hh hsub => cases h
    | @noFormat queue hand cause hq hne hh hsub hf =>
      obtain ⟨hnone, ⟨leader, lead⟩, rest, hp, hlead⟩ := Trick.currentFormat_error_iff.mp hf
      have hasks : AsksForLead k id hands cards lead :=
        ⟨⟨queue, hq⟩, hne, ⟨hand, hh, hsub⟩, hnone, leader, rest, hp⟩
      rcases TrickFormat.ofLead_error_iff.mp hlead with ⟨rfl, rfl⟩ | ⟨hmixed, rfl⟩
      · exact ⟨_, .emptyLead hasks, (Except.error.inj h).symm⟩
      · exact ⟨_, .mixedLead hasks hmixed, (Except.error.inj h).symm⟩
    | lead hq hne hh hsub hf =>
      cases hc : k.checkLead cards <;> rw [hc] at h <;> cases h
    | @follow queue hand f hq hne hh hsub hf =>
      cases hc : k.checkFollow f hand cards policy <;> rw [hc] at h <;> cases h
  · intro h
    obtain ⟨cause, hrefused, rfl⟩ := h
    cases hrefused with
    | emptyLead hasks =>
      obtain ⟨⟨queue, hq⟩, hne, ⟨hand, hh, hsub⟩, hnone, leader, rest, hp⟩ := hasks
      have hf : k.currentFormat = .error .emptyLead := Trick.currentFormat_error_iff.mpr
        ⟨hnone, _, rest, hp, TrickFormat.ofLead_error_iff.mpr (Or.inl ⟨rfl, rfl⟩)⟩
      rw [(Trick.Judgement.noFormat hq hne hh hsub hf).canPlay_eq]
      rfl
    | mixedLead hasks hmixed =>
      obtain ⟨⟨queue, hq⟩, hne, ⟨hand, hh, hsub⟩, hnone, leader, rest, hp⟩ := hasks
      have hf : k.currentFormat = .error .mixedLead := Trick.currentFormat_error_iff.mpr
        ⟨hnone, _, rest, hp, TrickFormat.ofLead_error_iff.mpr (Or.inr ⟨hmixed, rfl⟩)⟩
      rw [(Trick.Judgement.noFormat hq hne hh hsub hf).canPlay_eq]
      rfl
    | noStep hs hstep => cases hs

theorem rowsOf_error_iff [RowOrder] {f : TrickFormat} {hands : Hands} {id : PlayerId}
    {policy : DrawPolicy} :
    (ofRules (hands.cardsOf id)).map (rowsOf f policy) = .error fault ↔
      ∃ cause, Refused (.rows f hands id policy) cause ∧ fault = .rules cause := by
  rw [Hands.cardsOf]
  constructor
  · intro h
    cases hh : hands.get id with
    | ok hand => rw [hh] at h; cases h
    | error cause =>
      obtain ⟨hnone, rfl⟩ := Hands.get_error_iff.mp hh
      rw [hh] at h
      exact ⟨_, .unknownPlayer hnone, (Except.error.inj h).symm⟩
  · intro h
    obtain ⟨cause, hrefused, rfl⟩ := h
    cases hrefused with
    | unknownPlayer hnone =>
      rw [Hands.get_error_iff.mpr ⟨hnone, rfl⟩]
      rfl
    | noStep hs hstep => cases hs

/-- Results that need a step fail as the first of them does. -/
theorem bind_ofScoring_error_iff {α : Type} {p : ScoringParameters} {decks : List Deck}
    {result : Except ScoringFault α} {next : α → Result Json}
    (hresult : ∀ cause, result = .error cause ↔ p.NoStep decks cause)
    (hnext : ∀ a, next a = .error fault → ∃ cause, p.NoStep decks cause) :
    (Answer.ofScoring result >>= next) = .error fault ↔
      ∃ cause, p.NoStep decks cause ∧ fault = .rules (.scoring cause) := by
  cases result with
  | error cause =>
    constructor
    · intro h
      exact ⟨cause, (hresult cause).mp rfl, (Except.error.inj h).symm⟩
    · intro h
      obtain ⟨cause', hstep, rfl⟩ := h
      rw [(hresult cause').mpr hstep]
      rfl
  | ok a =>
    have hnone : ∀ cause, ¬p.NoStep decks cause := fun cause hstep => by
      cases (hresult cause).mpr hstep
    constructor
    · intro h
      obtain ⟨cause, hstep⟩ := hnext a h
      exact absurd hstep (hnone cause)
    · intro h
      obtain ⟨cause, hstep, -⟩ := h
      exact absurd hstep (hnone cause)

theorem exists_noStep_of_ofScoring {α : Type} {p : ScoringParameters} {decks : List Deck}
    {result : Except ScoringFault α} {next : α → Result Json}
    (hresult : ∀ cause, result = .error cause ↔ p.NoStep decks cause)
    (hnext : ∀ a, next a ≠ .error fault) (h : (Answer.ofScoring result >>= next) = .error fault) :
    ∃ cause, p.NoStep decks cause := by
  have hiff := bind_ofScoring_error_iff hresult fun a ha => absurd ha (hnext a)
  obtain ⟨cause, hstep, -⟩ := hiff.mp h
  exact ⟨cause, hstep⟩

theorem refused_scoring_iff {p : ScoringParameters} {decks : List Deck}
    (hs : inputs.scoring? = some (p, decks)) :
    (∃ cause, inputs.Refused cause ∧ fault = .rules cause) ↔
      ∃ cause, p.NoStep decks cause ∧ fault = .rules (.scoring cause) := by
  constructor
  · intro h
    obtain ⟨cause, hrefused, hfault⟩ := h
    cases hrefused with
    | unknownPlayer hnone => cases hs
    | emptyLead hasks => cases hs
    | mixedLead hasks hmixed => cases hs
    | noStep hs' hstep =>
      cases hs.symm.trans hs'
      exact ⟨_, hstep, hfault⟩
  · intro h
    obtain ⟨cause, hstep, hfault⟩ := h
    exact ⟨_, .noStep hs hstep, hfault⟩

theorem operation_of_refused (h : inputs.Refused cause) :
    inputs.operation ∈ [Operation.decomposeTrickFormat, .canPlayCards, .nextThresholdReachable,
      .explainScoring, .computeScore] := by
  cases h with
  | unknownPlayer hnone => simp [operation]
  | emptyLead hasks => simp [operation]
  | mixedLead hasks hmixed => simp [operation]
  | noStep hs hstep =>
    cases inputs with
    | reach => simp [operation]
    | table => simp [operation]
    | score => simp [operation]
    | _ => cases hs

theorem response_error_iff [RowOrder] :
    inputs.response = .error fault ↔ ∃ cause, inputs.Refused cause ∧ fault = .rules cause := by
  have hnone {response : Json} (hinputs : ∀ cause, ¬inputs.Refused cause) :
      (.ok response : Result Json) = .error fault ↔
        ∃ cause, inputs.Refused cause ∧ fault = .rules cause := by
    simp [hinputs]
  cases inputs with
  | plays t req cards => exact hnone fun _ h => by simpa [operation] using operation_of_refused h
  | rows f hands id policy => exact rowsOf_error_iff
  | play k id hands cards policy => exact playable_error_iff
  | bids a history id epoch =>
    exact hnone fun _ h => by simpa [operation] using operation_of_refused h
  | suits t cards => exact hnone fun _ h => by simpa [operation] using operation_of_refused h
  | reach p decks points observed =>
    rw [refused_scoring_iff rfl]
    exact bind_ofScoring_error_iff
      (fun _ => ScoringParameters.nextThresholdReachable_error_iff) fun _ h => nomatch h
  | table p decks smaller =>
    rw [refused_scoring_iff rfl]
    exact bind_ofScoring_error_iff (fun _ => ScoringParameters.explain_error_iff) fun _ =>
      exists_noStep_of_ofScoring (fun _ => ScoringParameters.stepSize_error_iff)
        fun _ h => nomatch h
  | size decks => exact hnone fun _ h => by simpa [operation] using operation_of_refused h
  | score p decks smaller points =>
    rw [refused_scoring_iff rfl]
    exact bind_ofScoring_error_iff (fun _ => ScoringParameters.levelDeltas_error_iff) fun _ =>
      exists_noStep_of_ofScoring (fun _ => ScoringParameters.nextRelevantScore_error_iff)
        fun _ h => nomatch h

end Inputs

theorem ensures_bind {α β : Type} {Q : β → Prop} {result : Result α} {next : α → Result β}
    (h : ∀ a, Ensures (fun _ => True) Q (next a)) :
    Ensures (fun _ => True) Q (result >>= next) := by
  cases result with
  | ok a => exact h a
  | error fault => trivial

theorem Operation.read_ensures (op : Operation) (request : Json) :
    Ensures (fun _ => True) (fun inputs => inputs.operation = op) (op.read request) := by
  cases op with
  | findViablePlays =>
    exact ensures_bind fun _ => ensures_bind fun _ => ensures_bind fun _ =>
      ensures_bind fun _ => ensures_bind fun _ => rfl
  | decomposeTrickFormat =>
    exact ensures_bind fun _ => ensures_bind fun _ => ensures_bind fun _ =>
      ensures_bind fun _ => ensures_bind fun _ => ensures_bind fun _ =>
        ensures_bind fun _ => rfl
  | canPlayCards => exact ensures_bind fun ⟨_, _, _, _, _⟩ => rfl
  | findValidBids => exact ensures_bind fun ⟨_, _, _, _⟩ => rfl
  | sortAndGroupCards =>
    exact ensures_bind fun _ => ensures_bind fun _ => ensures_bind fun _ =>
      ensures_bind fun _ => rfl
  | nextThresholdReachable =>
    exact ensures_bind fun ⟨_, _⟩ => ensures_bind fun _ =>
      ensures_bind fun _ => rfl
  | explainScoring =>
    exact ensures_bind fun ⟨_, _⟩ => ensures_bind fun _ => rfl
  | computeDeckLen => exact ensures_bind fun _ => rfl
  | computeScore =>
    exact ensures_bind fun ⟨_, _⟩ => ensures_bind fun _ =>
      ensures_bind fun _ => rfl

theorem Operation.operation_of_read (h : op.read request = .ok inputs) : inputs.operation = op := by
  have hensures := op.read_ensures request
  rwa [h] at hensures

/-- Once a request is read, what the inputs are refused for is all that the operation fails with.  So
finding plays and bids, sorting cards and counting them never fails, and scoring fails just where there
are no decks or the step is no positive multiple of five.  The engine finds whatever it needs.

The memory and the recursion depth of the host are left out: with enough copies or cards, an answer can
take more of either than there is. -/
theorem refused_of_read_iff [RowOrder] (h : op.read request = .ok inputs) :
    inputs.operation = op ∧
    (∀ fault, (dispatch (Text.ofString op.name) request).result = .error fault ↔
      ∃ cause, inputs.Refused cause ∧ fault = .rules cause) ∧
    (op ∈ [.findViablePlays, .sortAndGroupCards, .computeDeckLen, .findValidBids] →
      ∃ response, (dispatch (Text.ofString op.name) request).result = .ok response) ∧
    (∀ (p : ScoringParameters) decks, (∃ cause, p.NoStep decks cause) ↔
      decks = [] ∨ ¬(0 < p.rawStep decks ∧ 5 ∣ p.rawStep decks)) ∧
    NothingMissing := by
  have hoperation := Operation.operation_of_read h
  rw [dispatch_of_read h]
  refine ⟨hoperation, fun fault => Inputs.response_error_iff, fun hop => ?_,
    ScoringParameters.exists_noStep_iff, nothingMissing⟩
  cases hr : inputs.response with
  | ok response => exact ⟨response, rfl⟩
  | error fault =>
    obtain ⟨cause, hrefused, -⟩ := Inputs.response_error_iff.mp hr
    have hrefusing := Inputs.operation_of_refused hrefused
    rw [hoperation] at hrefusing
    cases op <;> simp at hop hrefusing

/-- Spades and hearts are on record as led together. -/
def mixedLeadRequest : Json := .record [
  ("trick", .record [("player_queue", .array [.int 1]),
    ("played_cards", .array [.record [("id", .int 0),
      ("cards", .array [.ofString "3S", .ofString "2H"])]])]),
  ("player_id", .int 1), ("hands", .record [("1", .array [.ofString "4S"])]),
  ("cards", .array [.ofString "4S"])]

def mixedLeadTrick : Trick where
  trump := {}
  queue := [1]
  played := [⟨0, [spade 3, .suited .hearts .two]⟩]

section

open scoped RowOrder

theorem mixedLeadRequest_refused :
    Operation.canPlayCards.read mixedLeadRequest = .ok (.play mixedLeadTrick 1
      (.ofList [(1, .ofCards [spade 4])]) [spade 4] .noProtections) ∧
    (dispatch (Text.ofString Operation.canPlayCards.name) mixedLeadRequest).result =
      .error (.rules .mixedLead) := by
  have hread : Operation.canPlayCards.read mixedLeadRequest = .ok (.play mixedLeadTrick 1
      (.ofList [(1, .ofCards [spade 4])]) [spade 4] .noProtections) := by rfl
  obtain ⟨-, hrefused, -⟩ := refused_of_read_iff hread
  have hasks : Inputs.AsksForLead mixedLeadTrick 1 (.ofList [(1, .ofCards [spade 4])]) [spade 4]
      [spade 3, .suited .hearts .two] :=
    ⟨⟨[], rfl⟩, by simp, ⟨_, rfl, by decide⟩, rfl, 0, [], rfl⟩
  refine ⟨hread, (hrefused _).mpr ⟨_, .mixedLead hasks fun hsuit => ?_, rfl⟩⟩
  obtain ⟨suit, hs⟩ := hsuit
  have hspades := hs (spade 3) (by simp)
  have hhearts := hs (.suited .hearts .two) (by simp)
  cases hspades.trans hhearts.symm

end

end TractorRules
