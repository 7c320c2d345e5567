import TractorRules.Grouping.Combine
import TractorRules.TrickUnit.Description
import TractorRules.Fault.Rules

/-!
# Trick formats

The lead of a trick fixes its format: the effective suit of the cards and the shapes of their most
compact grouping.  Draw policies say how closely a follower has to match it.
-/

namespace TractorRules

/-- How closely a follower has to match the format. -/
inductive DrawPolicy where
  /-- More copies than are asked for have to be broken up. -/
  | noProtections
  /-- A tuple is only asked of a card that is held exactly that often. -/
  | longerTuplesProtected
  /-- Only the number of cards of the led suit matters. -/
  | noFormatBasedDraw
deriving DecidableEq, Repr

/-- The effective suit and the shapes that a trick's lead imposes. -/
structure TrickFormat where
  suit : EffectiveSuit
  trump : Trump
  units : Shape
deriving DecidableEq, Repr

namespace TrickFormat

def size (f : TrickFormat) : Nat := f.units.size

def describe (f : TrickFormat) : String := f.units.describe

/-- The format of a lead: the shapes of its first grouping. -/
def ofLead (t : Trump) (req : TractorRequirements) (cards : List Card) :
    Except RulesFault TrickFormat :=
  match cards with
  | [] => .error .emptyLead
  | first :: rest =>
    if rest.all fun c => t.effectiveSuit c == t.effectiveSuit first then
      let best := (groupings t req cards (some 1)).headD []
      .ok ⟨t.effectiveSuit first, t, best.map TrickUnit.shape⟩
    else .error .mixedLead

end TrickFormat

end TractorRules
