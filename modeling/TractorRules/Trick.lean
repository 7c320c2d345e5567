import TractorRules.Format.Matching
import TractorRules.Hands

/-!
# Tricks

Whether a player may play some cards now.  The first player leads any cards of one effective suit.
Every follower plays as many cards as were led, cards of the led suit as long as there are any, and
among these the most preferred shape of the format's decomposition that the hand can make.
-/

namespace TractorRules

structure PlayedCards where
  id : PlayerId
  cards : List Card
deriving DecidableEq, Repr

/-- A trick in progress: the players still to play, the next one first, and the plays so far.  The
format may be left out; it is then that of the first play. -/
structure Trick where
  trump : Trump
  queue : List PlayerId
  played : List PlayedCards := []
  format : Option TrickFormat := none
  requirements : TractorRequirements := .standard
deriving DecidableEq, Repr

namespace Trick

def isComplete (k : Trick) : Bool := k.queue.isEmpty

/-- The format that followers have to match, if there has been a lead. -/
def currentFormat (k : Trick) : Except RulesFault (Option TrickFormat) :=
  match k.format, k.played with
  | some f, _ => .ok (some f)
  | none, [] => .ok none
  | none, lead :: _ => (TrickFormat.ofLead k.trump k.requirements lead.cards).map some

def cardsOfSuit (k : Trick) (suit : EffectiveSuit) (cards : List Card) : List Card :=
  cards.filter fun c => k.trump.effectiveSuit c == suit

/-- A lead must be of one effective suit. -/
def checkLead (k : Trick) (cards : List Card) : Except PlayFault Unit :=
  match cards with
  | [] => .ok ()
  | first :: rest =>
    if rest.all fun c => k.trump.effectiveSuit c == k.trump.effectiveSuit first then .ok ()
    else .error .mixedSuits

/-- A follow must answer the format as closely as the hand allows. -/
def checkFollow [RowOrder] (k : Trick) (f : TrickFormat) (hand : Hand) (cards : List Card)
    (policy : DrawPolicy) : Except PlayFault Unit :=
  if cards.length ≠ f.size then .error (.wrongNumberOfCards f.size cards.length)
  else
    let held := k.cardsOfSuit f.suit hand.cards
    let proposed := k.cardsOfSuit f.suit cards
    if proposed.length < f.size then
      if proposed.isPerm held then .ok () else .error .wrongSuit
    else
      match (f.decomposition policy).find? (canMatch k.trump held · policy) with
      | some shape => if canMatch k.trump proposed shape policy then .ok () else .error .wrongShape
      | none => .ok ()

/-- Whether a player may play some cards now, or why not. -/
def canPlay [RowOrder] (k : Trick) (id : PlayerId) (hands : Hands) (cards : List Card)
    (policy : DrawPolicy) : Except RulesFault Unit :=
  match k.queue with
  | [] => .error (.play .trickComplete)
  | next :: _ => do
    if next ≠ id then throw (.play .notYourTurn)
    if cards.isEmpty then throw (.play .noCards)
    let hand ← hands.get id
    if !hand.contains cards then throw (.play .cardsNotInHand)
    match ← k.currentFormat with
    | none => (k.checkLead cards).mapError .play
    | some f => (k.checkFollow f hand cards policy).mapError .play

/-- Whether a play is legal; faults other than that of an illegal play remain. -/
def isLegal [RowOrder] (k : Trick) (id : PlayerId) (hands : Hands) (cards : List Card)
    (policy : DrawPolicy) : Except RulesFault Bool :=
  match k.canPlay id hands cards policy with
  | .ok () => .ok true
  | .error (.play _) => .ok false
  | .error fault => .error fault

end Trick

/-! ### Playing a trick -/

structure TrickState where
  trick : Trick
  hands : Hands
deriving DecidableEq, Repr

/-- The state after a play that is allowed: the cards leave the hand, the player leaves the queue,
and the play is recorded. -/
def TrickState.play [RowOrder] (s : TrickState) (id : PlayerId) (cards : List Card)
    (policy : DrawPolicy) : Except RulesFault TrickState := do
  s.trick.canPlay id s.hands cards policy
  let hand ← s.hands.get id
  return {
    trick := { s.trick with
      queue := s.trick.queue.tail
      played := s.trick.played ++ [⟨id, cards⟩] }
    hands := s.hands.set id (hand.without cards) }

end TractorRules
