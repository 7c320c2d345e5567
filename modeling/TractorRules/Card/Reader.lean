import TractorRules.Fault.Value
import TractorRules.Text.Upper
import TractorRules.Text.Digit

/-!
# Reading cards

Reads suits, ranks and cards from values.  Blanks around a text and the case of its letters do not
matter, and a value that is no text is read as the text that shows it.
-/

namespace TractorRules

/-- The text of a value, without blanks around it and in upper case. -/
def Json.label (value : Json) : Text := value.plainText.trim.upper

/-- The integer of a text of digits. -/
def Text.readInteger (t : Text) : Except ValueFault Int :=
  match t.toInteger? with
  | some n => .ok n
  | none =>
    if maxDigits < t.leadingDigits then .error (.integerLength t.leadingDigits)
    else .error (.integerText t)

namespace Suit

def ofLetter? (c : CodePoint) : Option Suit :=
  all.find? fun s => Text.ofString s.letter == ⟨[c]⟩

def read (value : Json) : Except ValueFault Suit :=
  let label := value.label
  match all.find? fun s => Text.ofString s.letter == label || Text.ofString s.name == label with
  | some s => .ok s
  | none => .error (.suit value)

end Suit

namespace Joker

def read (value : Json) : Except ValueFault Joker :=
  let label := value.label
  match [Joker.small, .big].find? fun j => Text.ofString j.name == label with
  | some j => .ok j
  | none => .error (.joker label)

end Joker

namespace Rank

def lettered : List Rank := [11, 12, 13, 14].filterMap ofInt?

/-- The number that a value stands for: an integer itself, a text by its letter or digits. -/
def readNumber (value : Json) : Except ValueFault Int :=
  match value with
  | .bool _ => .error (.cardNumber value)
  | .int n => .ok n
  | _ =>
    let label := value.label
    match lettered.find? fun r => Text.ofString r.label == label with
    | some r => .ok r.number
    | none => if label.isDigits then label.readInteger else .error (.cardNumber value)

def read (value : Json) : Except ValueFault Rank := do
  match ofInt? (← readNumber value) with
  | some r => .ok r
  | none => .error (.cardNumberRange value)

end Rank

namespace Card

def jokers : List Card := [.joker .small, .joker .big]

def read (value : Json) : Except ValueFault Card :=
  let label := value.label
  match jokers.find? fun c => Text.ofString c.short == label with
  | some c => .ok c
  | none =>
    match label.points.reverse with
    | last :: front@(_ :: _) =>
      match Suit.ofLetter? last with
      | some s => do return .suited s (← Rank.read (.text ⟨front.reverse⟩))
      | none => .error (.card value)
    | _ => .error (.card value)

/-- A card from its parts: a suit with a number, or a joker alone. -/
def ofParts (suit : Option Suit) (number : Option Int) (joker : Option Joker) :
    Except ValueFault Card :=
  match joker, suit, number with
  | some j, none, none => .ok (.joker j)
  | some _, _, _ => .error .jokerWithFace
  | none, some s, some n =>
    match Rank.ofInt? n with
    | some r => .ok (.suited s r)
    | none => .error (.cardNumberRange (.int n))
  | none, _, _ => .error .cardWithoutFace

end Card

end TractorRules
