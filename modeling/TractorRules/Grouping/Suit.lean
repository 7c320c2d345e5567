import TractorRules.Grouping.Run
import TractorRules.Tally

/-!
# Groupings of one suit

Divides cards of one effective suit into units in every way that takes some tractors and leaves the
other copies of each card together.  The tractors are taken in the order of a list of candidates,
each as often as it fits, so that no choice of tractors comes twice.
-/

namespace TractorRules

/-! ### Candidates -/

/-- The tractors of a run of cards, with every number of copies that is allowed and held. -/
def tractorsOfRun (req : TractorRequirements) (held : Tally) (run : List Card) : List Tractor :=
  if req.minLength ≤ run.length then
    let most := (run.map held.count).min?.getD 0
    (List.range' req.minCount (most + 1 - req.minCount)).filterMap fun n => Tractor.ofNat? n run
  else []

/-- The tractors that sorted distinct cards could supply, by their first card. -/
def candidateTractors (t : Trump) (req : TractorRequirements) (held : Tally) :
    List Card → List Tractor
  | [] => []
  | c :: rest =>
    let usable := fun card => decide (req.minCount ≤ held.count card)
    (if usable c then (t.climbs usable c [] rest).flatMap (tractorsOfRun req held) else [])
      ++ candidateTractors t req held rest

/-! ### Choices of tractors -/

def Tally.timesOf (held : Tally) (t : Tractor) : Nat :=
  (t.members.map fun c => held.count c / t.count).min?.getD 0

def Tally.removeTractor (held : Tally) (t : Tractor) : Tally := held.removeEach t.members t.count

/-- What is left of sorted distinct cards, all copies of a card in one unit. -/
def Tally.leftovers (held : Tally) (order : List Card) : Grouping :=
  order.filterMap fun c => (Repeated.ofNat? c (held.count c)).map .repeated

/-- The groupings that take a tractor up to a number of times and go on with `rest`; each is followed
by those that extend it.  The tractors taken are held last first. -/
def takeTractor (order : List Card) (t : Tractor)
    (rest : List TrickUnit → Tally → List Grouping) :
    (times : Nat) → List TrickUnit → Tally → List Grouping
  | 0, taken, held => rest taken held
  | times + 1, taken, held =>
    let taken' := .tractor t :: taken
    let held' := held.removeTractor t
    (taken'.reverse ++ held'.leftovers order)
      :: (takeTractor order t rest times taken' held' ++ rest taken held)

/-- The groupings that take at least one more tractor from the candidates. -/
def takeTractors (order : List Card) :
    (candidates : List Tractor) → List TrickUnit → Tally → List Grouping
  | [], _, _ => []
  | t :: rest, taken, held =>
    takeTractor order t (takeTractors order rest) (held.timesOf t) taken held

/-! ### Groupings -/

def suitGroupings (t : Trump) (req : TractorRequirements) (cards : List Card) : List Grouping :=
  let held := Tally.ofList cards
  let order := cards.eraseDups
  held.leftovers order :: takeTractors order (candidateTractors t req held order) [] held

end TractorRules
