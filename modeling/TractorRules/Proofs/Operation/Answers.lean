import TractorRules.Proofs.Wire.Readers
import TractorRules.Proofs.Scoring.Range
import TractorRules.Proofs.Bidding.Offer
import TractorRules.Proofs.Format.Decomposition
import TractorRules.Proofs.Grouping.Cover
import TractorRules.Operation.Dispatch
import Mathlib.Algebra.Order.BigOperators.Group.List

/-!
# What is answered

Each answer is a response that can be written, or a refusal that can be described, or the fault of
stray digits.  The integers of a response are sums over values of the request: numbers of cards, points
of decks, and levels.
-/

namespace TractorRules

open Wire

variable {s : Json.Scope} {q : ValueFault → Prop}

theorem FailsBy.eq {ε α : Type} {p : ε → Prop} {result : Except ε α} (h : FailsBy p result) :
    Ensures p (fun a => result = .ok a) result := by
  cases result with
  | ok a => rfl
  | error e => exact h

/-! ### Refusals by the rules -/

section Rules

variable {depth : Nat} {id : PlayerId}

theorem unknownPlayer_described (h : Text.isWritable id) :
    (RulesFault.unknownPlayer id).Described depth :=
  RulesFault.described (List.forall_mem_singleton.2 (.int h)) nofun

theorem Hands.get_failsBy (hands : Hands) (h : Text.isWritable id) :
    FailsBy (RulesFault.Described depth) (hands.get id) := by
  unfold Hands.get
  split
  · trivial
  · exact unknownPlayer_described h

theorem Hands.cardsOf_failsBy (hands : Hands) (h : Text.isWritable id) :
    FailsBy (RulesFault.Described depth) (hands.cardsOf id) :=
  (hands.get_failsBy h).map fun _ _ => trivial

theorem findPlayer_failsBy (players : List Player) (h : Text.isWritable id) :
    FailsBy (RulesFault.Described depth) (findPlayer players id) := by
  unfold findPlayer
  split
  · trivial
  · exact unknownPlayer_described h

theorem TrickFormat.ofLead_ensures (t : Trump) (req : TractorRequirements) (cards : List Card) :
    Ensures (RulesFault.Described depth) (fun f => f.size = cards.length) (ofLead t req cards) := by
  cases h : ofLead t req cards with
  | ok f =>
    obtain ⟨hne, hsuit, -⟩ := TrickFormat.ofLead_eq_ok_iff.1 h
    obtain ⟨f', h', -, -, hsize⟩ := @ofLead_ok t req cards f.suit hne hsuit
    exact Except.ok.inj (h'.symm.trans h) ▸ hsize
  | error fault =>
    obtain ⟨-, rfl⟩ | ⟨-, rfl⟩ := TrickFormat.ofLead_error_iff.1 h
    · exact RulesFault.described (List.forall_mem_nil _) nofun
    · exact RulesFault.described (List.forall_mem_nil _) nofun

end Rules

theorem Trick.currentFormat_ensures {k : Trick} (hk : TrickWithin s k) :
    Ensures (RulesFault.Described s.depth) (fun f? => ∀ f ∈ f?, f.size ≤ s.room) k.currentFormat := by
  unfold currentFormat
  split
  · rename_i f _ hformat
    exact fun f' hf' => hk.format f' (hformat ▸ hf')
  · exact nofun
  · rename_i lead rest _ hplayed
    refine (TrickFormat.ofLead_ensures _ _ _).map fun f hf => ?_
    intro f' hf'
    obtain rfl := Option.some.inj hf'
    have length := hk.played lead (hplayed ▸ List.mem_cons_self)
    exact hf ▸ length.trans s.size_le_room

def PlayFault.Described (depth : Nat) (fault : PlayFault) : Prop := ∀ v ∈ fault.shown, v.Legible depth

namespace Trick

theorem checkLead_failsBy (k : Trick) (cards : List Card) (depth : Nat) :
    FailsBy (PlayFault.Described depth) (k.checkLead cards) := by
  unfold checkLead
  split
  · trivial
  · split
    · trivial
    · exact List.forall_mem_nil _

theorem checkFollow_failsBy [RowOrder] (k : Trick) (f : TrickFormat) (hand : Hand)
    (cards : List Card) (policy : DrawPolicy) {depth : Nat} (hf : Text.isWritable f.size)
    (hcards : Text.isWritable cards.length) :
    FailsBy (PlayFault.Described depth) (k.checkFollow f hand cards policy) := by
  unfold checkFollow
  split
  · exact List.forall_mem_cons.2 ⟨.int hf, List.forall_mem_singleton.2 (.int hcards)⟩
  · dsimp only
    split
    · split
      · trivial
      · exact List.forall_mem_nil _
    · split
      · split
        · trivial
        · exact List.forall_mem_nil _
      · trivial

theorem canPlay_failsBy [RowOrder] {k : Trick} (hk : TrickWithin s k) {id : PlayerId}
    (hid : Text.isWritable id) (hands : Hands) {cards : List Card}
    (hcards : cards.length ≤ s.request.size) (policy : DrawPolicy) :
    FailsBy (RulesFault.Described s.depth) (k.canPlay id hands cards policy) := by
  have refused (fault : PlayFault) (h : fault.Described s.depth) :
      (RulesFault.play fault).Described s.depth := RulesFault.described h nofun
  unfold canPlay
  split
  · exact refused _ (List.forall_mem_nil _)
  · dsimp only
    split
    · exact refused _ (List.forall_mem_nil _)
    · split
      · exact refused _ (List.forall_mem_nil _)
      · refine (hands.get_failsBy hid).bind fun hand _ => ?_
        split
        · exact refused _ (List.forall_mem_nil _)
        · refine (currentFormat_ensures hk).bind fun f? hf => ?_
          cases f? with
          | none => exact (k.checkLead_failsBy cards s.depth).mapError refused
          | some f =>
            have size : Text.isWritable f.size := s.isWritable (hf f rfl)
            have length : Text.isWritable cards.length := s.isWritable (hcards.trans s.size_le_room)
            exact (k.checkFollow_failsBy f hand cards policy size length).mapError refused

end Trick

theorem Auction.validBids_failsBy {a : Auction} (history : List Bid) {id : PlayerId} (epoch : Int)
    {depth : Nat} (hid : Text.isWritable id) (hl : ∀ l ∈ a.landlord, Text.isWritable l)
    (hd : Text.isWritable a.decks) :
    FailsBy (RulesFault.Described depth) (a.validBids history id epoch) := by
  have level : Text.isWritable (a.landlord.getD id) := by
    cases hlandlord : a.landlord with
    | none => exact hid
    | some l => exact hl l hlandlord
  unfold validBids
  split
  · exact RulesFault.described (List.forall_mem_singleton.2 (.int hd)) nofun
  · refine (findPlayer_failsBy _ level).bind fun bidder _ => ?_
    exact (a.hands.get_failsBy hid).bind fun hand _ => FailsBy.ok _

theorem Wire.ofRules_ensures {α : Type} {Q : α → Prop} {result : Except RulesFault α}
    (h : Ensures (RulesFault.Described s.depth) Q result) :
    Ensures (Fault.Proper s q) Q (ofRules result) :=
  h.mapError fun _ hf => hf

/-! ### What is written -/

namespace Wire

theorem writeResults_writable {rows : List Json} (h : ∀ row ∈ rows, row.Writable) :
    (writeResults rows).Writable :=
  .record (List.forall_mem_singleton.2 (.array h))

theorem writeMapped_writable {α : Type} {write : α → Json} {items : List α}
    (h : ∀ a ∈ items, (write a).Writable) : (writeResults (items.map write)).Writable :=
  writeResults_writable (List.forall_mem_map.2 h)

theorem writeCards_writable (cards : List Card) : (writeCards cards).Writable :=
  .array (List.forall_mem_map.2 fun _ _ => .text _)

theorem writeSuitGroup_writable (g : Trump.SuitGroup) : (writeSuitGroup g).Writable :=
  .record (List.forall_mem_cons.2 ⟨.text _, List.forall_mem_singleton.2 (writeCards_writable _)⟩)

theorem writeUnit_writable {u : TrickUnit} (h : Text.isWritable u.count) :
    (writeUnit u).Writable := by
  cases u with
  | repeated r =>
    apply Json.Writable.record
    exact List.forall_mem_cons.2 ⟨.text _, List.forall_mem_cons.2 ⟨.text _,
      List.forall_mem_singleton.2 (.ofNat h)⟩⟩
  | tractor t =>
    apply Json.Writable.record
    exact List.forall_mem_cons.2 ⟨.text _, List.forall_mem_cons.2 ⟨.ofNat h,
      List.forall_mem_singleton.2 (writeCards_writable _)⟩⟩

theorem writeShape_writable {u : UnitShape} (h : Text.isWritable u.copies) :
    (writeShape u).Writable := by
  refine .record (List.forall_mem_singleton.2 (.array (List.forall_mem_map.2 fun n hn => ?_)))
  exact List.eq_of_mem_replicate hn ▸ .ofNat h

theorem writeBid_writable {b : Bid} (hid : Text.isWritable b.id) (hcount : Text.isWritable b.count)
    (hepoch : Text.isWritable b.epoch) : (writeBid b).Writable := by
  apply Json.Writable.record
  exact List.forall_mem_cons.2 ⟨.int hid, List.forall_mem_cons.2 ⟨.text _,
    List.forall_mem_cons.2 ⟨.int hcount, List.forall_mem_singleton.2 (.int hepoch)⟩⟩⟩

theorem writeScore_writable {r : ScoreResult} (hl : Text.isWritable r.landlordDelta)
    (ho : Text.isWritable r.opponentDelta) : (writeScore r).Writable := by
  apply Json.Writable.record
  exact List.forall_mem_cons.2 ⟨.bool _, List.forall_mem_cons.2 ⟨.int hl,
    List.forall_mem_cons.2 ⟨.int ho, List.forall_mem_singleton.2 (.bool _)⟩⟩⟩

end Wire

theorem Shape.copies_le_size {u : UnitShape} {shape : Shape} (h : u ∈ shape) :
    u.copies ≤ shape.size := by
  have part : u.size ≤ shape.size := List.le_sum_of_mem (List.mem_map_of_mem h)
  exact (Nat.le_mul_of_pos_right _ u.groups_pos).trans part

/-! ### Answers -/

namespace Answer

variable {request : Json}

theorem readDrawPolicy_failsBy (h : request.Within s) :
    FailsBy (Fault.Proper s q) (readDrawPolicy request) :=
  readMemberOr_failsBy (by decide) (field_within (fieldsOf_within h) _) _

theorem viablePlays_ensures (h : request.Within s) :
    Ensures (Fault.Proper s q) Json.Writable (viablePlays request) := by
  refine (require_ensures h (by decide)).bind fun value hv => ?_
  refine (readTrump_failsBy hv).bind fun trump _ => ?_
  refine (readRequirements_failsBy (field_within (fieldsOf_within h) _)).bind fun req _ => ?_
  refine (require_ensures h (by decide)).bind fun value hv => ?_
  refine (readCards_ensures hv (by decide)).bind fun cards hcards => ?_
  refine writeMapped_writable fun g hg => ?_
  have length : Shape.size (g.map TrickUnit.shape) = cards.length := by
    rw [← Grouping.length_cards, (perm_of_mem_groupings hg).length_eq]
  have units : ∀ u ∈ g, (writeUnit u).Writable := by
    intro u hu
    have copies := Shape.copies_le_size (List.mem_map_of_mem (f := TrickUnit.shape) hu)
    rw [u.shape_copies, length] at copies
    exact writeUnit_writable (s.isWritable (copies.trans (hcards.trans s.size_le_room)))
  exact .record (List.forall_mem_cons.2
    ⟨.array (List.forall_mem_map.2 units), List.forall_mem_singleton.2 (.text _)⟩)

theorem writeRow_writable {f : TrickFormat} {held : List Card} {policy : DrawPolicy} {shape : Shape}
    (h : shape.size ≤ s.room) : (writeRow f held policy shape).Writable := by
  have units : ∀ u ∈ shape, (writeShape u).Writable := fun u hu =>
    writeShape_writable (s.isWritable ((Shape.copies_le_size hu).trans h))
  exact .record (List.forall_mem_cons.2 ⟨.array (List.forall_mem_map.2 units),
    List.forall_mem_cons.2 ⟨.text _, List.forall_mem_singleton.2 (writeCards_writable _)⟩⟩)

theorem formatRows_ensures [RowOrder] (h : request.Within s) :
    Ensures (Fault.Proper s (ValueFault.Stray s)) Json.Writable (formatRows request) := by
  refine (require_ensures h (by decide)).bind fun value hv => ?_
  refine (readFormat_ensures hv).bind fun f hf => ?_
  refine (require_ensures h (by decide)).bind fun value hv => ?_
  refine (readHands_ensures hv).bind fun hands _ => ?_
  refine (require_ensures h (by decide)).bind fun value hv => ?_
  refine (readPlayerId_ensures hv).bind fun id hid => ?_
  refine (readDrawPolicy_failsBy h).bind fun policy _ => ?_
  refine (ofRules_ensures (hands.cardsOf_failsBy hid)).bind fun hand _ => ?_
  refine writeMapped_writable fun shape hshape => writeRow_writable (s := s) ?_
  exact (TrickFormat.size_of_mem_decomposition hshape).trans_le hf

theorem suitGroups_ensures (h : request.Within s) :
    Ensures (Fault.Proper s q) Json.Writable (suitGroups request) := by
  refine (require_ensures h (by decide)).bind fun value hv => ?_
  refine (readTrump_failsBy hv).bind fun trump _ => ?_
  refine (require_ensures h (by decide)).bind fun value hv => ?_
  refine (readCards_ensures hv (by decide)).bind fun cards _ => ?_
  exact writeMapped_writable fun g _ => writeSuitGroup_writable g

/-! ### Bids -/

theorem readValidBids_ensures (h : request.Within s) :
    Ensures (Fault.Proper s (ValueFault.Stray s)) (fun bids => ∀ b ∈ bids, (writeBid b).Writable)
      (readValidBids request) := by
  have hf := fieldsOf_within h
  refine (require_ensures h (by decide)).bind fun value hv => ?_
  refine (readPlayerId_ensures hv).bind fun id hid => ?_
  refine (readBids_orEmptyList_failsBy (field_within hf _)).bind fun history _ => ?_
  refine (require_ensures h (by decide)).bind fun value hv => ?_
  refine (readHands_ensures hv).bind fun hands hhands => ?_
  refine (require_ensures h (by decide)).bind fun value hv => ?_
  refine (readPlayers_failsBy hv).bind fun players _ => ?_
  refine (optional_ensures (readPlayerId_ensures (field_within hf _))).bind fun landlord hlandlord => ?_
  refine (intFieldOr_ensures hf (by decide) (by decide)).bind fun epoch hepoch => ?_
  refine (readMemberOr_failsBy (by decide) (field_within hf _) _).bind fun bidPolicy _ => ?_
  refine (readMemberOr_failsBy (by decide) (field_within hf _) _).bind fun reinforcement _ => ?_
  refine (readMemberOr_failsBy (by decide) (field_within hf _) _).bind fun jokerPolicy _ => ?_
  refine (intFieldOr_ensures hf (by decide) (by decide)).bind fun decks hdecks => ?_
  have bids : FailsBy (RulesFault.Described s.depth) _ := Auction.validBids_failsBy
    (a := { hands, players, landlord, bidPolicy, reinforcement, jokerPolicy, decks }) history epoch
    hid hlandlord (s.isWritable_of_le_peak hdecks)
  refine ofRules_ensures (bids.eq.imp_value fun bids hbids b hb => ?_)
  obtain ⟨bidder, hand, n, -, hget, hn, -, heq⟩ := (Auction.mem_of_validBids hbids).1 hb
  obtain ⟨-, -, held⟩ :=
    (Auction.mem_candidates_iff (Auction.validBids_eq_ok_iff.1 hbids).1).1 hn
  rw [heq]
  exact writeBid_writable hid (s.isWritable (held.trans (hhands id hand hget b.card)))
    (s.isWritable_of_le_peak hepoch)

/-! ### Scores -/

theorem deckSize_ensures (h : request.Within s) :
    Ensures (Fault.Proper s q) Json.Writable (deckSize request) := by
  have list : ∀ raw : Json, raw.Within s → Ensures (Fault.Proper s q) Json.Writable (do
      return .ofNat (Deck.totalSize (← readDecks raw))) := by
    intro raw hr
    refine (readDecks_ensures hr).bind fun decks hdecks => ?_
    have size := Deck.totalSize_le decks
    have hundred := s.hundred_mul_le_room hdecks.le
    exact .ofNat (s.isWritable (show Deck.totalSize decks ≤ s.room by omega))
  unfold deckSize
  cases request with
  | object fields => exact list _ (field_within h.fields _)
  | _ => exact list _ h

theorem readScoring_ensures (h : request.Within s) :
    Ensures (Fault.Proper s (ValueFault.Stray s))
      (fun scoring => scoring.1.length < s.request.size ∧ ParametersWithin s scoring.2)
      (readScoring request) := by
  refine (require_ensures h (by decide)).bind fun value hv => ?_
  refine (readDecks_ensures hv).bind fun decks hdecks => ?_
  exact (readParameters_ensures (field_within (fieldsOf_within h) _)).bind fun _ hp => ⟨hdecks, hp⟩

section Results

variable {p : ScoringParameters} {decks : List Deck} {step : Int}

theorem noStep_described (hdecks : decks.length < s.request.size) (hp : ParametersWithin s p)
    {fault : ScoringFault} (h : p.NoStep decks fault) :
    (RulesFault.scoring fault).Described s.depth := by
  have raw : Text.isWritable (p.rawStep decks) :=
    s.isWritable ((p.rawStep_le hp.step hp.adjustments).trans (s.mul_le_room hdecks))
  cases h with
  | noDecks h => exact RulesFault.described (List.forall_mem_nil _) nofun
  | notPositive hne h => exact RulesFault.described (List.forall_mem_singleton.2 (.int raw)) nofun
  | notMultiple hne hpos h =>
    exact RulesFault.described (List.forall_mem_singleton.2 (.int raw)) nofun

theorem ofScoring_ensures {α : Type} (hdecks : decks.length < s.request.size)
    (hp : ParametersWithin s p) {result : Except ScoringFault α}
    (h : ∀ fault, result = .error fault → p.NoStep decks fault) :
    Ensures (Fault.Proper s q) (fun a => result = .ok a) (ofScoring result) := by
  cases result with
  | ok a => rfl
  | error fault => exact noStep_described hdecks hp (h fault rfl)

theorem isWritable_of_range (hdecks : decks.length < s.request.size) {n : Int}
    (h : 0 ≤ n ∧ n ≤ Deck.totalPoints decks) : Text.isWritable n := by
  have total := Deck.totalPoints_le decks
  have hundred := s.hundred_mul_le_room hdecks.le
  exact s.isWritable (by omega)

theorem writeScore_resultAt_writable (hstep : p.stepSize decks = .ok step)
    (hdecks : decks.length < s.request.size) (hp : ParametersWithin s p) (smaller : Bool)
    (points : Int) :
    (writeScore (p.resultAt step (Deck.totalPoints decks) smaller points)).Writable := by
  have levels : p.Levels _ (p.resultAt step _ smaller points) :=
    p.levels_resultAt (p.stepSize_pos hstep) (Int.natCast_nonneg (Deck.totalPoints decks))
  obtain ⟨hl, hl', ho, ho'⟩ := levels
  have turnover := hp.turnover
  have total := Deck.totalPoints_le decks
  have peak := s.hundred_le_peak
  have hundred := s.hundred_mul_le_room hdecks
  have some : decks ≠ [] := by
    rintro rfl
    cases hstep
  have length := List.length_pos_of_ne_nil some
  have twice := s.mul_le_room (m := 2) (by omega)
  exact writeScore_writable (s.isWritable (by omega)) (s.isWritable (by omega))

end Results

theorem thresholdReachable_ensures (h : request.Within s) :
    Ensures (Fault.Proper s (ValueFault.Stray s)) Json.Writable (thresholdReachable request) := by
  have hf := fieldsOf_within h
  refine (readScoring_ensures h).bind fun ⟨decks, p⟩ ⟨hdecks, hp⟩ => ?_
  refine (intField_ensures hf (by decide)).bind fun points _ => ?_
  refine (intField_ensures hf (by decide)).bind fun observed _ => ?_
  refine (ofScoring_ensures hdecks hp fun _ => p.nextThresholdReachable_error_iff.1).bind ?_
  exact fun reachable _ => .bool reachable

theorem scoreTable_ensures (h : request.Within s) :
    Ensures (Fault.Proper s (ValueFault.Stray s)) Json.Writable (scoreTable request) := by
  refine (readScoring_ensures h).bind fun ⟨decks, p⟩ ⟨hdecks, hp⟩ => ?_
  refine (boolField_failsBy (fieldsOf_within h) (by decide)).bind fun smaller _ => ?_
  refine (ofScoring_ensures hdecks hp fun _ => p.explain_error_iff.1).bind fun table htable => ?_
  refine (ofScoring_ensures hdecks hp fun _ => p.stepSize_error_iff.1).bind fun step hstep => ?_
  rw [p.explain_eq hstep] at htable
  obtain rfl := Except.ok.inj htable
  refine .record (List.forall_mem_cons.2 ⟨.array ?_, List.forall_mem_cons.2
    ⟨.ofNat (isWritable_of_range hdecks ⟨Int.natCast_nonneg _, le_rfl⟩),
      List.forall_mem_singleton.2 (.int ?_)⟩⟩)
  · refine List.forall_mem_map.2 (List.forall_mem_map.2 fun n hn => ?_)
    have range := ScoringParameters.thresholds_range (p.stepSize_pos hstep) (Int.natCast_nonneg _) hn
    exact .record (List.forall_mem_cons.2 ⟨.int (isWritable_of_range hdecks range),
      List.forall_mem_singleton.2 (writeScore_resultAt_writable hstep hdecks hp smaller n)⟩)
  · exact s.isWritable ((p.stepSize_le hstep hp.step hp.adjustments).trans (s.mul_le_room hdecks))

theorem score_ensures (h : request.Within s) :
    Ensures (Fault.Proper s (ValueFault.Stray s)) Json.Writable (score request) := by
  have hf := fieldsOf_within h
  refine (readScoring_ensures h).bind fun ⟨decks, p⟩ ⟨hdecks, hp⟩ => ?_
  refine (boolField_failsBy hf (by decide)).bind fun smaller _ => ?_
  refine (intField_ensures hf (by decide)).bind fun points _ => ?_
  refine (ofScoring_ensures hdecks hp fun _ => p.levelDeltas_error_iff.1).bind fun result hr => ?_
  refine (ofScoring_ensures hdecks hp fun _ => p.nextRelevantScore_error_iff.1).bind fun next hn => ?_
  obtain ⟨step, hstep, rfl⟩ := p.exists_step_of_levelDeltas hr
  exact .record (List.forall_mem_cons.2 ⟨writeScore_resultAt_writable hstep hdecks hp smaller points,
    List.forall_mem_singleton.2 (.int (isWritable_of_range hdecks
      (p.nextRelevantScore_range hstep hn)))⟩)

end Answer

/-! ### Replies -/

def Note.Described (depth : Nat) : Note → Prop
  | .playRejected id fault => Text.isWritable id ∧ fault.Described depth
  | .noBids fault | .refused _ fault => fault.Described depth

/-- A reply whose result and notes can be written, or that fails with stray digits. -/
structure Reply.Proper (s : Json.Scope) (reply : Reply) : Prop where
  notes : ∀ note ∈ reply.notes, note.Described s.depth
  result : Ensures (Fault.Proper s (ValueFault.Stray s)) Json.Writable reply.result

namespace Answer

variable {request : Json}

theorem playability_proper [RowOrder] (h : request.Within s) : (playability request).Proper s := by
  have reading : Ensures (Fault.Proper s (ValueFault.Stray s))
      (fun read => TrickWithin s read.1 ∧ Text.isWritable read.2.1 ∧
        read.2.2.2.1.length ≤ s.request.size)
      (do
        let trick ← readTrick (← require request "trick")
        let id ← readPlayerId (← require request "player_id")
        let hands ← readHands (← require request "hands")
        let cards ← readCards (← require request "cards") "cards"
        return (trick, id, hands, cards, ← readDrawPolicy request)) := by
    refine (require_ensures h (by decide)).bind fun value hv => ?_
    refine (readTrick_ensures hv).bind fun trick htrick => ?_
    refine (require_ensures h (by decide)).bind fun value hv => ?_
    refine (readPlayerId_ensures hv).bind fun id hid => ?_
    refine (require_ensures h (by decide)).bind fun value hv => ?_
    refine (readHands_ensures hv).bind fun hands _ => ?_
    refine (require_ensures h (by decide)).bind fun value hv => ?_
    refine (readCards_ensures hv (by decide)).bind fun cards hcards => ?_
    exact (readDrawPolicy_failsBy h).bind fun policy _ => ⟨htrick, hid, hcards⟩
  have answer (playable : Bool) : (Json.record [("playable", .bool playable)]).Writable :=
    .record (List.forall_mem_singleton.2 (.bool playable))
  unfold playability
  dsimp only
  split
  -- A failed reading is the answer; of what the rules say, only a refused play is answered with no.
  · rename_i hr
    rw [hr] at reading
    exact ⟨List.forall_mem_nil _, reading⟩
  · rename_i trick id hands cards policy hr
    rw [hr] at reading
    obtain ⟨htrick, hid, hcards⟩ := reading
    have play := Trick.canPlay_failsBy htrick hid hands hcards policy
    split
    · exact ⟨List.forall_mem_nil _, answer true⟩
    · rename_i hp
      rw [hp] at play
      split
      · exact ⟨List.forall_mem_singleton.2 ⟨hid, play⟩, answer false⟩
      · exact ⟨List.forall_mem_singleton.2 ⟨hid, play⟩, answer false⟩
      · exact ⟨List.forall_mem_nil _, play⟩

theorem validBids_proper (h : request.Within s) : (validBids request).Proper s := by
  have reading := readValidBids_ensures h
  unfold validBids
  cases hr : readValidBids request with
  | ok bids =>
    rw [hr] at reading
    exact ⟨List.forall_mem_nil _, writeMapped_writable reading⟩
  | error fault =>
    rw [hr] at reading
    cases fault with
    | rules fault =>
      exact ⟨List.forall_mem_singleton.2 reading, writeResults_writable (List.forall_mem_nil _)⟩
    | value v => exact ⟨List.forall_mem_nil _, reading⟩

/-- Valid bids are never refused: they are listed, or they fail with stray digits. -/
theorem validBids_cases (request : Json) :
    (∃ rows, (validBids request).result = .ok (writeResults rows)) ∨
      ∃ v, (validBids request).result = .error (.value v) := by
  unfold validBids
  cases readValidBids request with
  | ok bids => exact Or.inl ⟨_, rfl⟩
  | error fault =>
    cases fault with
    | rules fault => exact Or.inl ⟨[], rfl⟩
    | value v => exact Or.inr ⟨v, rfl⟩

end Answer

theorem Operation.run_proper [RowOrder] (op : Operation) {request : Json} (h : request.Within s) :
    (op.run request).Proper s := by
  cases op with
  | findViablePlays => exact ⟨List.forall_mem_nil _, Answer.viablePlays_ensures h⟩
  | decomposeTrickFormat => exact ⟨List.forall_mem_nil _, Answer.formatRows_ensures h⟩
  | canPlayCards => exact Answer.playability_proper h
  | findValidBids => exact Answer.validBids_proper h
  | sortAndGroupCards => exact ⟨List.forall_mem_nil _, Answer.suitGroups_ensures h⟩
  | nextThresholdReachable => exact ⟨List.forall_mem_nil _, Answer.thresholdReachable_ensures h⟩
  | explainScoring => exact ⟨List.forall_mem_nil _, Answer.scoreTable_ensures h⟩
  | computeDeckLen => exact ⟨List.forall_mem_nil _, Answer.deckSize_ensures h⟩
  | computeScore => exact ⟨List.forall_mem_nil _, Answer.score_ensures h⟩

end TractorRules
