import TractorRules.Proofs.Operation.Alike
import TractorRules.Proofs.Wire.Rewritten

/-!
# Rewritten requests

The cards of a request can be written in many ways.  As long as the acting player's hand has the same
cards and the plays have the same cards in some order, the response is the same, whatever the other
hands are (`response_of_rewritten`).
-/

namespace TractorRules

open Wire

/-- A request names the player who acts. -/
def Acts (request : Fields) (id : PlayerId) : Prop :=
  readPlayerId (field request "player_id") = .ok id

/-- Requests that may differ in how they write the acting player's hand, in the other hands, and in
the order of the cards that are to be played or were played. -/
structure Rewritten (request request' : Fields) : Prop where
  others : AgreeBut ["hands", "cards", "trick"] request request'
  hand : ∀ id, Acts request id →
    handWritten (field request "hands") id = handWritten (field request' "hands") id
  hands : ∃ hands, readHands (field request' "hands") = .ok hands
  cards : Option.Rel CardsReordered (Json.lookup "cards" request) (Json.lookup "cards" request')
  trick : Option.Rel TrickReordered (Json.lookup "trick" request) (Json.lookup "trick" request')

namespace Rewritten

variable {request request' : Fields}

theorem acts_of_reads {number : Json} {id : PlayerId}
    (hnumber : requireField request "player_id" "request" = .ok number)
    (hid : readPlayerId number = .ok id) : Acts request id := by
  rw [Acts, field, requireField_eq_ok_iff.mp hnumber]
  exact hid

theorem requireHands_follows (h : Rewritten request request') :
    Follows (fun value value' => value = field request "hands" ∧ value' = field request' "hands")
      (requireField request "hands" "request") (requireField request' "hands" "request") := by
  intro value hvalue
  obtain ⟨hands, hhands⟩ := h.hands
  have hfield : value = field request "hands" := by
    rw [field, requireField_eq_ok_iff.mp hvalue]
    rfl
  cases hlookup : Json.lookup "hands" request' with
  | none =>
    rw [field, hlookup] at hhands
    cases hhands
  | some value' =>
    refine ⟨value', requireField_eq_ok_iff.mpr hlookup, hfield, ?_⟩
    rw [field, hlookup]
    rfl

theorem readHands_follows (h : Rewritten request request') :
    Follows (fun hands hands' => ∀ id, Acts request id → hands.held id = hands'.held id)
      (readHands (field request "hands")) (readHands (field request' "hands")) := by
  intro hands hhands
  obtain ⟨hands', hhands'⟩ := h.hands
  refine ⟨hands', hhands', fun id hid => ?_⟩
  rw [held_of_readHands hhands, held_of_readHands hhands', h.hand id hid]

theorem rows_follows (h : Rewritten request request') :
    Follows Inputs.Alike (Operation.decomposeTrickFormat.read (.object request))
      (Operation.decomposeTrickFormat.read (.object request')) := by
  simp only [Operation.read, require_object, Answer.readDrawPolicy, fieldsOf]
  rw [← h.others.requireField_eq (by decide : Text.ofString "trick_format" ∉ _),
    ← h.others.requireField_eq (by decide : Text.ofString "player_id" ∉ _),
    ← h.others.field_eq (by decide : Text.ofString "trick_draw_policy" ∉ _)]
  refine Follows.bind_same fun value _ => Follows.bind_same fun f _ => ?_
  refine h.requireHands_follows.bind ?_
  rintro _ _ ⟨rfl, rfl⟩
  -- Here the player is read after the hands, so the hands are compared for whoever will act.
  refine h.readHands_follows.bind fun hands hands' hsame => ?_
  refine Follows.bind_same fun number hnumber => Follows.bind_same fun id hid => ?_
  refine Follows.bind_same fun policy _ => ?_
  exact Follows.ok (.rows f policy (hsame id (acts_of_reads hnumber hid)))

theorem play_follows (h : Rewritten request request') :
    Follows Inputs.Alike (Operation.canPlayCards.read (.object request))
      (Operation.canPlayCards.read (.object request')) := by
  simp only [Operation.read, Answer.readPlay, require_object, Answer.readDrawPolicy, fieldsOf,
    bind_assoc, pure_bind]
  rw [← h.others.requireField_eq (by decide : Text.ofString "player_id" ∉ _),
    ← h.others.field_eq (by decide : Text.ofString "trick_draw_policy" ∉ _)]
  refine (requireField_follows h.trick).bind fun value value' htrick => ?_
  refine (readTrick_follows htrick).bind fun k k' hk => ?_
  refine Follows.bind_same fun number hnumber => Follows.bind_same fun id hid => ?_
  refine h.requireHands_follows.bind ?_
  rintro _ _ ⟨rfl, rfl⟩
  refine h.readHands_follows.bind fun hands hands' hsame => ?_
  refine (requireField_follows h.cards).bind fun list list' hlist => ?_
  refine (readCards_follows hlist _).bind fun cards cards' hcards => ?_
  refine Follows.bind_same fun policy _ => ?_
  exact Follows.ok (.play policy hk (hsame id (acts_of_reads hnumber hid)) hcards)

theorem bids_follows (h : Rewritten request request') :
    Follows Inputs.Alike (Operation.findValidBids.read (.object request))
      (Operation.findValidBids.read (.object request')) := by
  simp only [Operation.read, Answer.readBidding, require_object, fieldsOf, bind_assoc, pure_bind]
  rw [← h.others.requireField_eq (by decide : Text.ofString "player_id" ∉ _),
    ← h.others.field_eq (by decide : Text.ofString "bid_history" ∉ _),
    ← h.others.requireField_eq (by decide : Text.ofString "players" ∉ _),
    ← h.others.field_eq (by decide : Text.ofString "landlord" ∉ _),
    ← h.others.intFieldOr_eq 0 (by decide : Text.ofString "epoch" ∉ _),
    ← h.others.field_eq (by decide : Text.ofString "bid_policy" ∉ _),
    ← h.others.field_eq (by decide : Text.ofString "reinforcement_policy" ∉ _),
    ← h.others.field_eq (by decide : Text.ofString "joker_bid_policy" ∉ _),
    ← h.others.intFieldOr_eq 2 (by decide : Text.ofString "num_decks" ∉ _)]
  refine Follows.bind_same fun number hnumber => Follows.bind_same fun id hid => ?_
  refine Follows.bind_same fun history _ => ?_
  refine h.requireHands_follows.bind ?_
  rintro _ _ ⟨rfl, rfl⟩
  refine h.readHands_follows.bind fun hands hands' hsame => ?_
  refine Follows.bind_same fun value _ => Follows.bind_same fun players _ => ?_
  refine Follows.bind_same fun landlord _ => Follows.bind_same fun epoch _ => ?_
  refine Follows.bind_same fun bidPolicy _ => Follows.bind_same fun reinforcement _ => ?_
  refine Follows.bind_same fun jokerPolicy _ => Follows.bind_same fun decks _ => ?_
  exact Follows.ok (.bids ⟨hands, players, landlord, bidPolicy, reinforcement, jokerPolicy, decks⟩
    history epoch (hsame id (acts_of_reads hnumber hid)))

end Rewritten

/-- Of all hands only the acting player's matters, and of it only which cards it has, however they are
written.  The order of the cards that are to be played or were played does not matter either.  The
rewritten request is read as well, and its response is the same. -/
theorem response_of_rewritten [RowOrder] {op : Operation} {request : Json} {request' : Fields}
    {inputs : Inputs} (hop : op ∈ [Operation.canPlayCards, .decomposeTrickFormat, .findValidBids])
    (h : op.read request = .ok inputs) (hr : Rewritten (fieldsOf request) request') :
    (∃ inputs', op.read (.object request') = .ok inputs') ∧
      (dispatch (Text.ofString op.name) (.object request')).result =
        (dispatch (Text.ofString op.name) request).result := by
  have hobject : op ≠ .computeDeckLen := by
    rintro rfl
    simp at hop
  obtain ⟨fields, rfl⟩ := Operation.object_of_read hobject h
  have hfollows : Follows Inputs.Alike (op.read (.object fields)) (op.read (.object request')) := by
    simp only [List.mem_cons, List.not_mem_nil, or_false] at hop
    rcases hop with rfl | rfl | rfl
    · exact hr.play_follows
    · exact hr.rows_follows
    · exact hr.bids_follows
  obtain ⟨inputs', h', halike⟩ := hfollows inputs h
  exact ⟨⟨inputs', h'⟩, by rw [dispatch_of_read h', dispatch_of_read h, halike.response_eq]⟩

/-- The lead of a first player. -/
def leadOf (led : List Json) : Json := .record [("id", .int 0), ("cards", .array led)]

/-- A second player is to follow a lead without a trump. -/
def followRequest (led : List Json) (hands : Json) (cards : List Json) : Fields :=
  fieldsOf <| .record [
    ("trick", .record [("player_queue", .array [.int 1]), ("played_cards", .array [leadOf led])]),
    ("player_id", .int 1), ("hands", hands), ("cards", .array cards)]

def listedHand : Json := .record [("0", .array []),
  ("1", .array [.ofString "6S", .ofString "5S", .ofString "6S"])]

/-- The same hand by counts, where two labels are read as one card, beside another player's. -/
def countedHand : Json := .record [("1", .record [("5S", .int 1), ("6S", .int 1), ("LJ", .int 0),
  (" 6s", .int 1)]), ("2", .array [.ofString "BJ"])]

theorem leadOf_reordered {led led' : List Json} (h : led.Perm led') :
    PlayReordered (leadOf led) (leadOf led') :=
  .fields (.keep (.replace (by decide) (.refl _ _))) (.some (.items h))

theorem followRequest_rewritten {led led' cards cards' : List Json} (hled : led.Perm led')
    (hcards : cards.Perm cards') :
    Rewritten (followRequest led listedHand cards) (followRequest led' countedHand cards') where
  others := .replace (by decide) (.keep (.replace (by decide) (.replace (by decide) (.refl _ _))))
  hand := by
    intro id hid
    obtain rfl : (1 : PlayerId) = id := Except.ok.inj hid
    show handWritten listedHand 1 = handWritten countedHand 1
    decide
  hands := ⟨_, rfl⟩
  cards := .some (.items hcards)
  trick := by
    have hplays := List.Forall₂.cons (leadOf_reordered hled) .nil
    exact .some (.fields (.keep (.replace (by decide) (.refl _ _))) (.some (.items hplays)))

def listedFollow : Fields :=
  followRequest [.ofString "3S", .ofString "4S"] listedHand [.ofString "5S", .ofString "6S"]

def countedFollow : Fields :=
  followRequest [.ofString "4S", .ofString "3S"] countedHand [.ofString "6S", .ofString "5S"]

section

open scoped RowOrder

theorem countedFollow_answered :
    Operation.canPlayCards ∈ [Operation.canPlayCards, .decomposeTrickFormat, .findValidBids] ∧
      (∃ inputs, Operation.canPlayCards.read (.object listedFollow) = .ok inputs) ∧
      Rewritten listedFollow countedFollow ∧
      (∃ inputs', Operation.canPlayCards.read (.object countedFollow) = .ok inputs') ∧
      (dispatch (Text.ofString Operation.canPlayCards.name) (.object countedFollow)).result =
        (dispatch (Text.ofString Operation.canPlayCards.name) (.object listedFollow)).result := by
  have hop : Operation.canPlayCards ∈
      [Operation.canPlayCards, .decomposeTrickFormat, .findValidBids] := by decide
  have hr : Rewritten listedFollow countedFollow :=
    followRequest_rewritten (.swap _ _ []) (.swap _ _ [])
  have hread : ∃ inputs, Operation.canPlayCards.read (.object listedFollow) = .ok inputs := ⟨_, rfl⟩
  obtain ⟨inputs, h⟩ := hread
  exact ⟨hop, ⟨inputs, h⟩, hr, response_of_rewritten hop h hr⟩

end

end TractorRules
