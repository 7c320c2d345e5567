import TractorRules.Operation.Dispatch

/-!
# Service

The operations as endpoints of a service, and one more endpoint that lists their names.  An endpoint is
called with a payload of the kind that it declares.  A refused request is a bad request; the fault of a
value that no field names is not answered.
-/

namespace TractorRules

inductive Response where
  | ok (body : Json)
  | badRequest (detail : String)

namespace Service

def operationNames : List String :=
  (Operation.all.map Operation.name).mergeSort fun a b => decide (a ≤ b)

def listing : Response := .ok (.array (operationNames.map Json.ofString))

def isObject : Json → Bool
  | .object _ => true
  | _ => false

/-- Whether a payload is of the kind that an endpoint declares: a list of objects for the size of decks,
an object for all others. -/
def declares (op : Operation) (payload : Json) : Bool :=
  match op, payload with
  | .computeDeckLen, .array items => items.all isObject
  | .computeDeckLen, _ => false
  | _, payload => isObject payload

def respond [RowOrder] (op : Operation) (payload : Json) : Except ValueFault Response :=
  match (op.run payload).result with
  | .ok body => .ok (.ok body)
  | .error (.rules fault) => .ok (.badRequest fault.message)
  | .error (.value fault) => .error fault

end Service

end TractorRules
