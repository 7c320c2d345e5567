import TractorRules.Wire.Cards
import TractorRules.Wire.Named
import TractorRules.Text.Lower

/-!
# Units and formats on the wire

A unit is an object with its type, its count, and its card or members.  A shape is the list of its
groups' copies, alone or in an object.
-/

namespace TractorRules.Wire

/-- Reads tractor requirements; null is the usual ones. -/
def readRequirements (value : Json) : Result TractorRequirements :=
  match value with
  | .null => .ok .standard
  | value => do
    let fields ← asObject value "tractor_requirements"
    let minCount ← intFieldOr fields "min_count" 2
    let minLength ← intFieldOr fields "min_length" 2
    (ofValue (TractorRequirements.ofInts minCount minLength)).naming .requirements

/-! ### Units -/

def readUnit (value : Json) : Result TrickUnit := do
  let fields ← asObject value "unit"
  let kind := (← requireField fields "type" "unit").plainText.lower
  let count ← intField fields "count"
  if kind = Text.ofString "repeated" then
    let card ← readCard (← requireField fields "card" "unit")
    Result.naming (RequestFault.unit value) do
      return .repeated (← ofValue (Repeated.ofInt card count))
  else if kind = Text.ofString "tractor" then
    let members ← readCards (← requireField fields "members" "unit") "members"
    Result.naming (RequestFault.unit value) do
      return .tractor (← ofValue (Tractor.ofInt count members))
  else refuse (.unitType kind)

def writeUnit : TrickUnit → Json
  | .repeated r =>
    .record [("type", .ofString "repeated"), ("card", writeCard r.card), ("count", .ofNat r.count)]
  | .tractor t =>
    .record [("type", .ofString "tractor"), ("count", .ofNat t.count),
      ("members", writeCards t.members)]

/-! ### Shapes and formats -/

def readShape (value : Json) : Result UnitShape := do
  let raw :=
    match value with
    | .object fields => field fields "adjacent_tuples"
    | value => value
  let tuples ← (← asList raw "shape").mapM fun n => asInt n "adjacent_tuples"
  (ofValue (UnitShape.ofTuples tuples)).naming .shape

def writeTuples (s : UnitShape) : Json := .array (s.tuples.map Json.ofNat)

def writeShape (s : UnitShape) : Json := .record [("adjacent_tuples", writeTuples s)]

def readFormat (value : Json) : Result TrickFormat := do
  let fields ← asObject value "trick_format"
  let suit ← readMember (← requireField fields "suit" "trick_format")
  let trump ← readTrump (field fields "trump")
  let units ← (← asList (← requireField fields "units" "trick_format") "units").mapM readShape
  return ⟨suit, trump, units⟩

end TractorRules.Wire
