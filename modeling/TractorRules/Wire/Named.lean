import TractorRules.Wire.Field
import TractorRules.Bidding
import TractorRules.Format.Basic
import TractorRules.Scoring

/-!
# Values written by name

Policies and effective suits are written by name, in any case and with blanks around it.
-/

namespace TractorRules.Wire

class Named (α : Type) where
  typeName : String
  members : List (String × α)

instance : Named EffectiveSuit where
  typeName := "EffectiveSuit"
  members := EffectiveSuit.all.map fun s => (s.name, s)

instance : Named DrawPolicy where
  typeName := "TrickDrawPolicy"
  members := [
    ("NO_PROTECTIONS", .noProtections),
    ("LONGER_TUPLES_PROTECTED", .longerTuplesProtected),
    ("NO_FORMAT_BASED_DRAW", .noFormatBasedDraw)]

instance : Named BidPolicy where
  typeName := "BidPolicy"
  members := [
    ("JOKER_OR_GREATER_LENGTH", .jokerOrGreaterLength),
    ("GREATER_LENGTH", .greaterLength),
    ("JOKER_OR_HIGHER_SUIT", .jokerOrHigherSuit)]

instance : Named BidReinforcementPolicy where
  typeName := "BidReinforcementPolicy"
  members := [
    ("REINFORCE_WHILE_WINNING", .reinforceWhileWinning),
    ("OVERTURN_OR_REINFORCE_WHILE_WINNING", .overturnOrReinforceWhileWinning),
    ("REINFORCE_WHILE_EQUIVALENT", .reinforceWhileEquivalent)]

instance : Named JokerBidPolicy where
  typeName := "JokerBidPolicy"
  members := [
    ("BOTH_TWO_OR_MORE", .bothTwoOrMore),
    ("BOTH_NUM_DECKS", .bothNumDecks),
    ("LJ_NUM_DECKS_HJ_NUM_DECKS_LESS_ONE", .smallNumDecksBigOneLess),
    ("DISABLED", .disabled)]

instance : Named BonusLevelPolicy where
  typeName := "BonusLevelPolicy"
  members := [
    ("NO_BONUS_LEVEL", .noBonusLevel),
    ("BONUS_LEVEL_FOR_SMALLER_LANDLORD_TEAM", .bonusLevelForSmallerLandlordTeam)]

def nameOf {α : Type} [Named α] [DecidableEq α] (a : α) : String :=
  ((Named.members (α := α)).find? (·.2 == a)).elim "" Prod.fst

def readMember {α : Type} [Named α] (value : Json) : Result α :=
  let named : Option (String × α) :=
    match value with
    | .text t => Named.members.find? fun m => Text.ofString m.1 == t.trim.upper
    | _ => none
  match named with
  | some m => .ok m.2
  | none =>
    refuse (.member (Named.typeName α) value ((Named.members (α := α)).map Prod.fst))

/-- Reads a value by its name; null is the default. -/
def readMemberOr {α : Type} [Named α] (value : Json) (default : α) : Result α :=
  match value with
  | .null => .ok default
  | value => readMember value

end TractorRules.Wire
