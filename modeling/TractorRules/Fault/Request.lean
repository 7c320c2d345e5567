import TractorRules.Fault.Value

/-!
# Faults of requests

Why a request does not have the form that is wanted, and the message that says so.
-/

namespace TractorRules

inductive FieldKind where
  | object
  | list
  | integer
  | boolean
deriving DecidableEq, Repr

def FieldKind.phrase : FieldKind → String
  | .object => "an object"
  | .list => "a list"
  | .integer => "an integer"
  | .boolean => "a boolean"

inductive RequestFault where
  | kind (wanted : FieldKind) (what : String) (value : Json)
  | missing (field : String) (place : Option String)
  | member (typeName : String) (value : Json) (members : List String)
  | card (value : Json) (cause : Option ValueFault)
  | trump (value : Json) (cause : ValueFault)
  | requirements (cause : ValueFault)
  | shape (cause : ValueFault)
  | unit (value : Json) (cause : ValueFault)
  | unitType (name : Text)
  | negativeCount (label : Text)
  | player (value : Json) (cause : ValueFault)
  | deck (value : Json) (cause : ValueFault)
  | unknownParameters (names : List Text)
  | parameters (cause : ValueFault)
  | unknownOperation (name : Text)
  | notAnObject (operation : String) (value : Json)

namespace RequestFault

/-- A value that is not what it should be, and why. -/
def invalid (what : String) (value : Json) (cause : ValueFault) : String :=
  "Invalid " ++ what ++ ": " ++ value.display ++ " (" ++ cause.message ++ ")"

def message : RequestFault → String
  | .kind wanted what v => "Expected " ++ wanted.phrase ++ " for " ++ what ++ ", got " ++ v.display
  | .missing field none => "Missing field '" ++ field ++ "'"
  | .missing field (some place) => "Missing field '" ++ field ++ "' in " ++ place
  | .member typeName v members =>
    "Invalid " ++ typeName ++ ": " ++ v.display ++ " (expected one of "
      ++ ", ".intercalate members ++ ")"
  | .card v none => "Invalid card: " ++ v.display
  | .card v (some cause) => invalid "card" v cause
  | .trump v cause => invalid "trump" v cause
  | .requirements cause => cause.message
  | .shape cause => cause.message
  | .unit v cause => invalid "unit" v cause
  | .unitType name => "Invalid unit type: " ++ name.quoted
  | .negativeCount label => "Negative count for " ++ label.quoted
  | .player v cause => invalid "player" v cause
  | .deck v cause => invalid "deck" v cause
  | .unknownParameters names =>
    "Unknown scoring parameters: [" ++ ", ".intercalate (names.map Text.quoted) ++ "]"
  | .parameters cause => "Invalid scoring parameters: " ++ cause.message
  | .unknownOperation name => "Unknown operation: " ++ name.quoted
  | .notAnObject operation v =>
    "Expected a JSON object for " ++ operation ++ ", got " ++ v.kindWord

end RequestFault

end TractorRules
