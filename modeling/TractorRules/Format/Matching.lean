import TractorRules.Format.Decomposition

/-!
# Matching cards against a shape

Finds the ways to play a shape from cards.  Units of several cards are placed first, the largest
first; of equal shapes, the later one never takes lower cards than the earlier, so that each choice
of placements comes once.  Singles are then filled from the lowest cards left.
-/

namespace TractorRules

namespace Matching

/-- What stays the same during a search: the trump, the distinct cards from low to high, how many of
each there are, and whether a tuple must take all copies of a card. -/
structure Table where
  trump : Trump
  order : List Card
  all : Tally
  isProtected : Bool

namespace Table

def ofCards (t : Trump) (cards : List Card) (policy : DrawPolicy) : Table :=
  ⟨t, t.sort cards.eraseDups, Tally.ofList cards, policy == .longerTuplesProtected⟩

def usable (tb : Table) (held : Tally) (copies : Nat) (c : Card) : Bool :=
  copies ≤ held.count c && (!tb.isProtected || tb.all.count c == copies)

/-- The ways to place a unit of a shape on cards still held. -/
def placements (tb : Table) (held : Tally) (s : UnitShape) : List TrickUnit :=
  if s.groups = 1 then
    (tb.order.filter (tb.usable held s.copies)).filterMap fun c =>
      (Repeated.ofNat? c s.copies).map .repeated
  else
    (tb.trump.runsOfLength (tb.usable held s.copies) s.groups tb.order).filterMap fun run =>
      (Tractor.ofNat? s.copies run).map .tractor

def unitKey (tb : Table) (u : TrickUnit) : List SortKey := u.members.map tb.trump.sortKey

/-- Single cards, the lowest that are still held. -/
def lowestSingles (tb : Table) (held : Tally) (n : Nat) : Grouping :=
  ((tb.order.flatMap fun c => List.replicate (min (held.count c) n) c).take n).map fun c =>
    .repeated ⟨c, 1, Nat.one_pos⟩

/-- Places the units in turn, none below the floor, and fills up with singles. -/
def place (tb : Table) (singles : Nat) :
    List UnitShape → (floor : Option (List SortKey)) → Tally → Budget → List Grouping
  | [], _, held, b => b.cut [tb.lowestSingles held singles]
  | s :: rest, floor, held, b =>
    let options := (tb.placements held s).filter fun u =>
      match floor with
      | none => true
      | some key => !SortKey.listLt (tb.unitKey u) key
    Budget.gather (fun b u =>
      let floor := if rest.head? = some s then some (tb.unitKey u) else none
      (place tb singles rest floor (held.removeEach u.members u.count) b).map (u :: ·)) b options

end Table

def structuredLe (a b : UnitShape) : Bool :=
  b.size < a.size || a.size == b.size && b.groups ≤ a.groups

end Matching

/-- The ways to play a shape from cards, within a budget. -/
def matchShape (t : Trump) (cards : List Card) (shape : Shape) (policy : DrawPolicy) (b : Budget) :
    List Grouping :=
  if cards.length < shape.size then []
  else
    let tb := Matching.Table.ofCards t cards policy
    let structured := (shape.filter (· != .single)).mergeSort Matching.structuredLe
    tb.place (shape.count .single) structured none tb.all b

def canMatch (t : Trump) (cards : List Card) (shape : Shape) (policy : DrawPolicy) : Bool :=
  !(matchShape t cards shape policy (some 1)).isEmpty

end TractorRules
