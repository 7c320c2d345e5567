import TractorRules.Fault.Value

/-!
# Trump

A trump names a suit, a rank, both or neither.  Jokers, cards of the trump rank and cards of the
trump suit are trump; they form a suit of their own, above the others.  Within an effective suit the
cards stand on rungs: the trump rank is skipped in every suit, and the trump ladder runs from the
trump suit over the other suits' trump-rank cards (all on one rung), the trump suit's trump-rank
card and the small joker to the big joker.
-/

namespace TractorRules

structure Trump where
  suit : Option Suit := none
  rank : Option Rank := none
deriving DecidableEq, Repr

/-- The suit that a card counts as under a trump. -/
inductive EffectiveSuit where
  | plain (suit : Suit)
  | trump
deriving DecidableEq, Repr

namespace EffectiveSuit

def all : List EffectiveSuit := Suit.all.map .plain ++ [.trump]

def index : EffectiveSuit → Nat
  | .plain s => s.index
  | .trump => 4

def name : EffectiveSuit → String
  | .plain s => s.name
  | .trump => "TRUMP"

end EffectiveSuit

namespace Trump

def ofInt (suit : Option Suit) (number : Option Int) : Except ValueFault Trump :=
  match number with
  | none => .ok ⟨suit, none⟩
  | some n =>
    match Rank.ofInt? n with
    | some r => .ok ⟨suit, some r⟩
    | none => .error (.trumpNumberRange n)

def isNoTrump (t : Trump) : Bool := t.suit.isNone

def isTrump (t : Trump) : Card → Bool
  | .joker _ => true
  | .suited s r => t.rank == some r || t.suit == some s

def effectiveSuit (t : Trump) : Card → EffectiveSuit
  | .joker _ => .trump
  | .suited s r => if t.isTrump (.suited s r) then .trump else .plain s

/-- The rung of a rank on a ladder that skips the trump rank. -/
def plainRung (t : Trump) (r : Rank) : Nat :=
  match t.rank with
  | none => r.number - 2
  | some skipped => if skipped.number < r.number then r.number - 3 else r.number - 2

/-- The number of rungs below the cards of the trump rank. -/
def suitRungs (t : Trump) : Nat :=
  match t.suit, t.rank with
  | none, _ => 0
  | some _, none => 13
  | some _, some _ => 12

def rungsBelowJokers (t : Trump) : Nat :=
  t.suitRungs + match t.suit, t.rank with
    | _, none => 0
    | none, some _ => 1
    | some _, some _ => 2

/-- The rung of a card on the ladder of its effective suit. -/
def rung (t : Trump) : Card → Nat
  | .joker j => t.rungsBelowJokers + j.index
  | .suited s r =>
    if t.rank = some r then t.suitRungs + if t.suit = some s then 1 else 0
    else t.plainRung r

/-- Whether the second card stands one rung above the first in the same effective suit. -/
def isAdjacent (t : Trump) (lower upper : Card) : Bool :=
  t.effectiveSuit lower == t.effectiveSuit upper && t.rung upper == t.rung lower + 1

end Trump

end TractorRules
