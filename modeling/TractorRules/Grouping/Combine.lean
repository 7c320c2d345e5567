import TractorRules.Search
import TractorRules.Grouping.Suit

/-!
# Groupings of cards

Divides cards into units in every way.  The groupings of each effective suit are found apart, and one
of each suit is combined with the others in every way, fewest units first.  Each suit's groupings are put
in layers by their number of units.  For each total number of units, the combinations come in the
order of the suits' layers, and only sums that the remaining suits can reach are tried, so a bounded
search does no needless work.
-/

namespace TractorRules

/-- Groupings by their number of units, ascending. -/
abbrev Layers := List (Nat × List Grouping)

namespace Layers

/-- The layers of a list of groupings, each in the order of the list. -/
def ofList (gs : List Grouping) : Layers :=
  let most := (gs.map List.length).max?.getD 0
  (List.range (most + 1)).filterMap fun n =>
    match gs.filter (·.length == n) with
    | [] => none
    | layer => some (n, layer)

def sizes (ls : Layers) : List Nat := ls.map Prod.fst

end Layers

/-- The layers of a suit with the sums that the suits after it can reach. -/
structure Stage where
  layers : Layers
  laterSums : List Nat

namespace Stage

def sums : List Stage → List Nat
  | [] => [0]
  | s :: _ => (s.layers.sizes.flatMap fun n => s.laterSums.map (n + ·)).eraseDups

def ofSuits : List Layers → List Stage
  | [] => []
  | ls :: rest => let later := ofSuits rest; ⟨ls, sums later⟩ :: later

/-- The combinations with a total number of units, within a budget. -/
def combine : List Stage → (total : Nat) → Budget → List Grouping
  | [], total, b => if total = 0 then b.cut [[]] else []
  | s :: rest, total, b =>
    Budget.gather (fun b (layer : Nat × List Grouping) =>
      if layer.1 ≤ total ∧ total - layer.1 ∈ s.laterSums then
        Budget.gather (fun b g => (combine rest (total - layer.1) b).map (g ++ ·)) b layer.2
      else []) b s.layers

end Stage

/-- One grouping of each suit in every combination, fewest units first, within a budget. -/
def combineSuits (b : Budget) (suits : List (List Grouping)) : List Grouping :=
  let stages := Stage.ofSuits (suits.map Layers.ofList)
  Budget.gather (fun b total => Stage.combine stages total b) b
    ((Stage.sums stages).mergeSort fun m n => decide (m ≤ n))

/-! ### Groupings of all suits -/

def maxGroupings : Nat := 4096

/-- The groupings of cards within a budget; none without cards. -/
def groupings (t : Trump) (req : TractorRequirements) (cards : List Card) (b : Budget) :
    List Grouping :=
  match t.groupBySuit cards with
  | [] => []
  | groups => combineSuits b (groups.map fun g => suitGroupings t req g.cards)

end TractorRules
