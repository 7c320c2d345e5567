import TractorRules.Proofs.Operation.Failures

/-!
# Reading requests

An operation first reads its request and then answers what it read.  `Operation.read` is the first
half and `Inputs.response` the second: a request that is read is answered by its inputs alone
(`dispatch_of_read`).
-/

namespace TractorRules

open Wire

/-- What the operations work on, once a request is read. -/
inductive Inputs where
  | plays (t : Trump) (req : TractorRequirements) (cards : List Card)
  | rows (f : TrickFormat) (hands : Hands) (id : PlayerId) (policy : DrawPolicy)
  | play (k : Trick) (id : PlayerId) (hands : Hands) (cards : List Card) (policy : DrawPolicy)
  | bids (a : Auction) (history : List Bid) (id : PlayerId) (epoch : Int)
  | suits (t : Trump) (cards : List Card)
  | reach (p : ScoringParameters) (decks : List Deck) (points observed : Int)
  | table (p : ScoringParameters) (decks : List Deck) (smaller : Bool)
  | size (decks : List Deck)
  | score (p : ScoringParameters) (decks : List Deck) (smaller : Bool) (points : Int)

/-! ### The two halves -/

def Answer.readPlay (request : Json) :
    Result (Trick × PlayerId × Hands × List Card × DrawPolicy) := do
  let trick ← readTrick (← require request "trick")
  let id ← readPlayerId (← require request "player_id")
  let hands ← readHands (← require request "hands")
  let cards ← readCards (← require request "cards") "cards"
  return (trick, id, hands, cards, ← readDrawPolicy request)

def Answer.readBidding (request : Json) : Result (Auction × List Bid × PlayerId × Int) := do
  let fields := fieldsOf request
  let id ← readPlayerId (← require request "player_id")
  let history ← readBids (orEmptyList (field fields "bid_history"))
  let hands ← readHands (← require request "hands")
  let players ← readPlayers (← require request "players")
  let landlord ← optional (field fields "landlord") readPlayerId
  let epoch ← intFieldOr fields "epoch" 0
  let bidPolicy ← readMemberOr (field fields "bid_policy") BidPolicy.jokerOrGreaterLength
  let reinforcement ← readMemberOr (field fields "reinforcement_policy")
    BidReinforcementPolicy.reinforceWhileWinning
  let jokerPolicy ← readMemberOr (field fields "joker_bid_policy") JokerBidPolicy.bothTwoOrMore
  let decks ← intFieldOr fields "num_decks" 2
  return ({ hands, players, landlord, bidPolicy, reinforcement, jokerPolicy, decks }, history, id,
    epoch)

def Operation.read (op : Operation) (request : Json) : Result Inputs :=
  let fields := fieldsOf request
  match op with
  | .findViablePlays => do
    let trump ← readTrump (← require request "trump")
    let requirements ← readRequirements (field fields "tractor_requirements")
    return .plays trump requirements (← readCards (← require request "cards") "cards")
  | .decomposeTrickFormat => do
    let f ← readFormat (← require request "trick_format")
    let hands ← readHands (← require request "hands")
    let id ← readPlayerId (← require request "player_id")
    return .rows f hands id (← Answer.readDrawPolicy request)
  | .canPlayCards => do
    let (trick, id, hands, cards, policy) ← Answer.readPlay request
    return .play trick id hands cards policy
  | .findValidBids => do
    let (auction, history, id, epoch) ← Answer.readBidding request
    return .bids auction history id epoch
  | .sortAndGroupCards => do
    let trump ← readTrump (← require request "trump")
    return .suits trump (← readCards (← require request "cards") "cards")
  | .nextThresholdReachable => do
    let (decks, params) ← Answer.readScoring request
    let points ← intField fields "non_landlord_points"
    return .reach params decks points (← intField fields "observed_points")
  | .explainScoring => do
    let (decks, params) ← Answer.readScoring request
    return .table params decks (← boolField fields "smaller_landlord_team_size")
  | .computeDeckLen => do
    let decks := match request with
      | .object fields => field fields "decks"
      | value => value
    return .size (← readDecks decks)
  | .computeScore => do
    let (decks, params) ← Answer.readScoring request
    let smaller ← boolField fields "smaller_landlord_team_size"
    return .score params decks smaller (← intField fields "non_landlord_points")

namespace Inputs

def writePlayable (playable : Bool) : Json := .record [("playable", .bool playable)]

/-- A refused play and an unknown player are answered with no. -/
def playable : Except RulesFault Unit → Result Json
  | .ok () => .ok (writePlayable true)
  | .error (.play _) => .ok (writePlayable false)
  | .error (.unknownPlayer _) => .ok (writePlayable false)
  | .error fault => .error (.rules fault)

/-- Every refusal is answered with no bids. -/
def offers : Except RulesFault (List Bid) → Json
  | .ok valid => writeResults (valid.map writeBid)
  | .error _ => writeResults []

def rowsOf [RowOrder] (f : TrickFormat) (policy : DrawPolicy) (hand : List Card) : Json :=
  let held := hand.filter fun c => f.trump.effectiveSuit c == f.suit
  writeResults ((f.decomposition policy).map (Answer.writeRow f held policy))

def tableOf (decks : List Deck) (rows : List (Int × ScoreResult)) (step : Int) : Json :=
  .record [("results", .array (rows.map fun (threshold, result) =>
      Json.record [("point_threshold", .int threshold), ("score_result", writeScore result)])),
    ("total_points", .ofNat (Deck.totalPoints decks)), ("step_size", .int step)]

def response [RowOrder] : Inputs → Result Json
  | .plays t req cards =>
    .ok (writeResults ((groupings t req cards (some maxGroupings)).map Answer.writeGrouping))
  | .rows f hands id policy => (ofRules (hands.cardsOf id)).map (rowsOf f policy)
  | .play k id hands cards policy => playable (k.canPlay id hands cards policy)
  | .bids a history id epoch => .ok (offers (a.validBids history id epoch))
  | .suits t cards => .ok (writeResults ((t.groupBySuit cards).map writeSuitGroup))
  | .reach p decks points observed => do
    return .bool (← Answer.ofScoring (p.nextThresholdReachable decks points observed))
  | .table p decks smaller => do
    let rows ← Answer.ofScoring (p.explain decks smaller)
    return tableOf decks rows (← Answer.ofScoring (p.stepSize decks))
  | .size decks => .ok (.ofNat (Deck.totalSize decks))
  | .score p decks smaller points => do
    let result ← Answer.ofScoring (p.levelDeltas decks points smaller)
    let next ← Answer.ofScoring (p.nextRelevantScore decks points smaller)
    return .record [("score_result", writeScore result), ("next_threshold", .int next)]

end Inputs

/-! ### Together they are the operation -/

variable {op : Operation} {request : Json} {inputs : Inputs} {fault : Fault}

theorem Answer.playability_eq [RowOrder] (request : Json) :
    (playability request).result = Operation.canPlayCards.read request >>= Inputs.response := by
  unfold playability Operation.read
  dsimp only
  rw [← readPlay]
  cases hread : readPlay request with
  | error fault => rfl
  | ok reading =>
    obtain ⟨k, id, hands, cards, policy⟩ := reading
    simp only [bind, Except.bind, pure, Except.pure, Inputs.response]
    cases k.canPlay id hands cards policy with
    | ok => rfl
    | error fault => cases fault <;> rfl

theorem Answer.readValidBids_eq (request : Json) :
    readValidBids request = readBidding request >>= fun (a, history, id, epoch) =>
      ofRules (a.validBids history id epoch) := by
  simp only [readValidBids, readBidding, bind_assoc, pure_bind]

theorem Answer.validBids_eq [RowOrder] (request : Json) :
    (validBids request).result = match Operation.findValidBids.read request with
      | .ok inputs => inputs.response
      | .error (.rules _) => .ok (writeResults [])
      | .error fault => .error fault := by
  unfold validBids Operation.read
  rw [readValidBids_eq]
  cases hread : readBidding request with
  | error fault => cases fault <;> rfl
  | ok reading =>
    obtain ⟨a, history, id, epoch⟩ := reading
    simp only [bind, Except.bind, pure, Except.pure, Inputs.response]
    cases a.validBids history id epoch with
    | ok valid => rfl
    | error fault => rfl

theorem Operation.run_eq_bind [RowOrder] (hop : op ≠ .findValidBids) (request : Json) :
    (op.run request).result = op.read request >>= Inputs.response := by
  cases op with
  | findViablePlays =>
    simp only [run, Answer.viablePlays, read, bind_assoc, pure_bind]
    rfl
  | decomposeTrickFormat =>
    simp only [run, Answer.formatRows, read, bind_assoc, pure_bind]
    rfl
  | canPlayCards => exact Answer.playability_eq request
  | findValidBids => exact absurd rfl hop
  | sortAndGroupCards =>
    simp only [run, Answer.suitGroups, read, bind_assoc, pure_bind]
    rfl
  | nextThresholdReachable =>
    simp only [run, Answer.thresholdReachable, read, bind_assoc, pure_bind]
    rfl
  | explainScoring =>
    simp only [run, Answer.scoreTable, read, bind_assoc, pure_bind]
    rfl
  | computeDeckLen =>
    simp only [run, Answer.deckSize, read, bind_assoc, pure_bind]
    rfl
  | computeScore =>
    simp only [run, Answer.score, read, bind_assoc, pure_bind]
    rfl

/-- Once a request is read, the answer depends on what was read alone. -/
theorem Operation.run_of_read [RowOrder] (h : op.read request = .ok inputs) :
    (op.run request).result = inputs.response := by
  by_cases hop : op = .findValidBids
  · subst hop
    show (Answer.validBids request).result = _
    rw [Answer.validBids_eq, h]
  · rw [run_eq_bind hop, h]
    rfl

theorem require_of_not_object (h : ∀ fields, request ≠ .object fields) (key : String) :
    require request key = refuse (.kind .object "request" request) := by
  cases request with
  | object fields => exact absurd rfl (h fields)
  | _ => rfl

/-- Only the number of cards can be asked for by a request that is no object. -/
theorem Operation.object_of_read (hop : op ≠ .computeDeckLen) (h : op.read request = .ok inputs) :
    ∃ fields, request = .object fields := by
  by_cases hobject : ∃ fields, request = .object fields
  · exact hobject
  · have hrefused := require_of_not_object fun fields heq => hobject ⟨fields, heq⟩
    cases op with
    | computeDeckLen => exact absurd rfl hop
    | _ =>
      simp [read, Answer.readPlay, Answer.readBidding, Answer.readScoring, hrefused, refuse, bind,
        Except.bind] at h

theorem dispatch_of_read [RowOrder] (h : op.read request = .ok inputs) :
    (dispatch (Text.ofString op.name) request).result = inputs.response := by
  rw [dispatch, Operation.ofName?_name, ← Operation.run_of_read h]
  rcases op.answer_cases request with hr | ⟨hop, hobject, -⟩
  · exact (congrArg Reply.result hr).trans (Reply.noting_result op _)
  · obtain ⟨fields, rfl⟩ := Operation.object_of_read hop h
    exact absurd rfl (hobject fields)

end TractorRules
