import TractorRules.Card.Basic

/-!
# Card notation

How cards are written: the number or letter of the rank, then the letter of the suit, as in `3S`,
`10H`, `QD`; the small joker is `LJ` and the big joker `BJ`.
-/

namespace TractorRules

def Suit.letter : Suit → String
  | .clubs => "C"
  | .diamonds => "D"
  | .spades => "S"
  | .hearts => "H"

def Suit.name : Suit → String
  | .clubs => "CLUBS"
  | .diamonds => "DIAMONDS"
  | .spades => "SPADES"
  | .hearts => "HEARTS"

def Joker.name : Joker → String
  | .small => "SMALL"
  | .big => "BIG"

/-- How a number is written on a card: a letter for 11 to 14, any other number in digits. -/
def numberLabel (n : Int) : String :=
  if n = 11 then "J" else if n = 12 then "Q" else if n = 13 then "K" else if n = 14 then "A"
  else toString n

def Rank.label (r : Rank) : String := numberLabel r.number

def Card.short : Card → String
  | .suited s r => r.label ++ s.letter
  | .joker .small => "LJ"
  | .joker .big => "BJ"

def Card.display (c : Card) : String := "Card(" ++ c.short ++ ")"

end TractorRules
