import TractorRules.Counts
import TractorRules.Fault.Rules

/-!
# Hands and players

A hand lists its distinct cards in the order in which they came, each with its number of copies.
Hands lists the players' hands in the order in which the players came.
-/

namespace TractorRules

/-! ### Hands -/

structure Hand where
  entries : Counts Card
  nodup : (entries.map Prod.fst).Nodup
  positive : ∀ e ∈ entries, 0 < e.2
deriving DecidableEq, Repr

namespace Hand

/-- The hand with the given copies of cards, repeated cards added up and absent ones left out. -/
def ofCounts (counts : Counts Card) : Hand where
  entries := (Counts.addAll [] counts).filter fun e => 0 < e.2
  nodup := (Counts.nodup_addAll counts
    (show (([] : Counts Card).map Prod.fst).Nodup by simp)).sublist (List.filter_sublist.map _)
  positive := by
    intro e he
    simpa using (List.mem_filter.1 he).2

/-- The hand with the given copies of cards, none of which may be negative. -/
def ofInts (counts : Entries Card Int) : Except ValueFault Hand := do
  return ofCounts (← counts.mapM fun (card, n) =>
    if n < 0 then .error (.negativeCount card) else .ok (card, n.toNat))

def ofCards (cards : List Card) : Hand := ofCounts (cards.map fun c => (c, 1))

def count (h : Hand) (c : Card) : Nat := h.entries.times c

def cards (h : Hand) : List Card := h.entries.flatMap fun (c, n) => List.replicate n c

/-- Whether a hand holds the cards, as many copies of each as are listed. -/
def contains (h : Hand) (cards : List Card) : Bool :=
  cards.eraseDups.all fun c => cards.count c ≤ h.count c

def without (h : Hand) (cards : List Card) : Hand :=
  ofCounts (h.entries.map fun (c, n) => (c, n - cards.count c))

end Hand

/-- The players' hands in the order in which the players came. -/
structure Hands where
  entries : Entries PlayerId Hand
  nodup : (entries.map Prod.fst).Nodup
deriving DecidableEq, Repr

namespace Hands

def set (hands : Hands) (id : PlayerId) (hand : Hand) : Hands :=
  ⟨hands.entries.put id hand, Entries.nodup_put id hand hands.nodup⟩

/-- The hands of several players; a later hand of a player replaces an earlier one. -/
def ofList (hands : List (PlayerId × Hand)) : Hands :=
  ⟨Entries.ofList hands, Entries.nodup_ofList hands⟩

/-- The hands with the given copies of cards, none of which may be negative. -/
def ofInts (hands : Entries PlayerId (Entries Card Int)) : Except ValueFault Hands := do
  return ofList (← hands.mapM fun (id, counts) => do return (id, ← Hand.ofInts counts))

def get (hands : Hands) (id : PlayerId) : Except RulesFault Hand :=
  match hands.entries.lookup id with
  | some hand => .ok hand
  | none => .error (.unknownPlayer id)

def cardsOf (hands : Hands) (id : PlayerId) : Except RulesFault (List Card) :=
  (hands.get id).map Hand.cards

def contains (hands : Hands) (id : PlayerId) (cards : List Card) : Except RulesFault Bool :=
  (hands.get id).map (·.contains cards)

/-- The hands as shown in a message, each hand's cards sorted as text. -/
def display (hands : Hands) : String :=
  "Hands(\x7b" ++ ", ".intercalate (hands.entries.map fun (id, hand) =>
    let labels := (hand.cards.map Card.short).mergeSort fun a b => decide (a ≤ b)
    toString id ++ ": [" ++ ", ".intercalate (labels.map fun s => "'" ++ s ++ "'") ++ "]")
    ++ "\x7d)"

end Hands

/-! ### Players -/

/-- A seated player; without a level, only jokers can be bid. -/
structure Player where
  id : PlayerId
  name : Text
  level : Option Rank
deriving DecidableEq, Repr

def findPlayer (players : List Player) (id : PlayerId) : Except RulesFault Player :=
  match players.find? (·.id == id) with
  | some player => .ok player
  | none => .error (.unknownPlayer id)

end TractorRules
