import TractorRules.Card.Notation
import TractorRules.Json.Display
import TractorRules.Text.Digit

/-!
# Faults of values

Why a value is none of the type that is wanted, and the message that says so.
-/

namespace TractorRules

/-- What keeps a value out of a type. -/
inductive ValueFault where
  /-- Digits that no integer is written with. -/
  | integerText (t : Text)
  /-- A text with more digits than an integer is read with. -/
  | integerLength (digits : Nat)
  /-- An integer with more digits than are written. -/
  | integerUnwritable
  | cardNumber (value : Json)
  | cardNumberRange (value : Json)
  | suit (value : Json)
  | card (value : Json)
  | joker (name : Text)
  /-- An object for a card without one of its fields. -/
  | cardField (name : String)
  | jokerWithFace
  | cardWithoutFace
  | trumpNumberRange (number : Int)
  | deckMinimumRange (minimum : Int)
  | tractorMinCount (count : Int)
  | tractorMinLength (length : Int)
  | unitCount (count : Int)
  | tractorMembers
  | emptyShape (tuples : List Int)
  | mixedShape (tuples : List Int)
  | negativeCount (card : Card)
  | turnoverSteps
  | deadzone
  /-- A path that holds a null character, which no path does. -/
  | nullInPath

namespace ValueFault

/-- How much of a text is shown when it cannot be read as an integer. -/
def integerTextShown : Nat := 200

def digitLimit : String :=
  "Exceeds the limit (" ++ toString Text.maxDigits ++ " digits) for integer string conversion"

def limitAdvice : String := "use sys.set_int_max_str_digits() to increase the limit"

/-- A list of integers in round brackets, with a comma after a single one. -/
def tuple : List Int → String
  | [n] => "(" ++ toString n ++ ",)"
  | ns => "(" ++ ", ".intercalate (ns.map toString) ++ ")"

def message : ValueFault → String
  | .integerText t =>
    "invalid literal for int() with base 10: "
      ++ String.ofList (t.quoted.toList.take integerTextShown)
  | .integerLength digits =>
    digitLimit ++ ": value has " ++ toString digits ++ " digits; " ++ limitAdvice
  | .integerUnwritable => digitLimit ++ "; " ++ limitAdvice
  | .cardNumber v => "Invalid card number: " ++ v.display
  | .cardNumberRange v => "Card number out of range: " ++ v.display
  | .suit v => "Invalid suit: " ++ v.display
  | .card v => "Invalid card: " ++ v.display
  | .joker name => name.quoted ++ " is not a valid Joker"
  | .cardField name => "'" ++ name ++ "'"
  | .jokerWithFace => "A joker has neither suit nor number"
  | .cardWithoutFace => "A suited card needs both a suit and a number"
  | .trumpNumberRange n => "Trump number out of range: " ++ toString n
  | .deckMinimumRange n => "Deck minimum out of range: " ++ toString n
  | .tractorMinCount n => "Tractor min_count must be at least 2, got " ++ toString n
  | .tractorMinLength n => "Tractor min_length must be at least 2, got " ++ toString n
  | .unitCount n => "Unit count must be positive, got " ++ toString n
  | .tractorMembers => "A tractor needs at least two members"
  | .emptyShape ns => "Invalid unit shape: " ++ tuple ns
  | .mixedShape ns => "Tractor shape mixes multiplicities: " ++ tuple ns
  | .negativeCount c => "Negative card count for " ++ c.display
  | .turnoverSteps => "num_steps_to_non_landlord_turnover must be at least 1"
  | .deadzone => "deadzone_size must not be negative"
  | .nullInPath => "embedded null byte"

end ValueFault

end TractorRules
