import TractorRules.Entries
import TractorRules.Fault.Rules
import TractorRules.Card.Reader

/-!
# Fields of requests

Reads the fields of objects as values of the kind that is wanted, or names the fault.
-/

namespace TractorRules.Wire

abbrev Fields := Entries Text Json

/-- What reading a value gives: a result or a fault. -/
abbrev Result (α : Type) := Except Fault α

def refuse {α : Type} (fault : RequestFault) : Result α := .error (.request fault)

/-- Names a request's fault for the fault of a value; other faults stay. -/
def Result.naming {α : Type} (name : ValueFault → RequestFault) : Result α → Result α
  | .error (.value cause) => refuse (name cause)
  | result => result

def ofValue {α : Type} (result : Except ValueFault α) : Result α := result.mapError .value

def ofRules {α : Type} (result : Except RulesFault α) : Result α := result.mapError .rules

/-! ### Kinds of values -/

def asObject (value : Json) (what : String) : Result Fields :=
  match value with
  | .object fields => .ok fields
  | _ => refuse (.kind .object what value)

def asList (value : Json) (what : String) : Result (List Json) :=
  match value with
  | .array items => .ok items
  | _ => refuse (.kind .list what value)

def asInt (value : Json) (what : String) : Result Int :=
  match value with
  | .int n => .ok n
  | _ => refuse (.kind .integer what value)

def asBool (value : Json) (what : String) : Result Bool :=
  match value with
  | .bool b => .ok b
  | _ => refuse (.kind .boolean what value)

/-! ### Fields -/

/-- The value of a field, null if it is missing. -/
def field (fields : Fields) (key : String) : Json := (Json.lookup key fields).getD .null

def requireField (fields : Fields) (key place : String) : Result Json :=
  match Json.lookup key fields with
  | some value => .ok value
  | none => refuse (.missing key (some place))

def require (request : Json) (key : String) : Result Json := do
  requireField (← asObject request "request") key "request"

/-- The fields of a request; one that is no object has none. -/
def fieldsOf (request : Json) : Fields :=
  match request with
  | .object fields => fields
  | _ => []

def intField (fields : Fields) (key : String) : Result Int :=
  match Json.present key fields with
  | some value => asInt value key
  | none => refuse (.missing key none)

def intFieldOr (fields : Fields) (key : String) (default : Int) : Result Int :=
  match Json.present key fields with
  | some value => asInt value key
  | none => .ok default

def boolField (fields : Fields) (key : String) : Result Bool :=
  match Json.present key fields with
  | some value => asBool value key
  | none => .ok false

def orEmptyList (value : Json) : Json := if value.isVoid then .array [] else value

def orEmptyObject (value : Json) : Json := if value.isVoid then .object [] else value

def optional {α : Type} (value : Json) (read : Json → Result α) : Result (Option α) :=
  match value with
  | .null => .ok none
  | value => some <$> read value

end TractorRules.Wire
