import TractorRules.Text.Printable

/-!
# Quoted text

How a text is shown in a message: in single quotes, or in double quotes if it holds a single quote
and no double quote.  The backslash and the quote in use are escaped, line ends and tabs have short
escapes, and other unprintable code points are written in hexadecimal.
-/

namespace TractorRules.Text

def hexDigit (n : Nat) : Char := Nat.digitChar (n % 16)

/-- The last `width` hexadecimal digits of a number. -/
def hex (width n : Nat) : String :=
  String.ofList ((List.range width).reverse.map fun i => hexDigit (n >>> (4 * i)))

def escapePoint (c : CodePoint) : String :=
  if c < 256 then "\\x" ++ hex 2 c
  else if c < 65536 then "\\u" ++ hex 4 c
  else "\\U" ++ hex 8 c

def quotePoint (quote c : CodePoint) : String :=
  if c = quote ∨ c = 92 then String.ofList ['\\', charOf c]
  else if c = 9 then "\\t"
  else if c = 10 then "\\n"
  else if c = 13 then "\\r"
  else if isPrintable c then String.singleton (charOf c)
  else escapePoint c

def quoteFor (t : Text) : CodePoint :=
  if t.points.contains 39 && !t.points.contains 34 then 34 else 39

def quoted (t : Text) : String :=
  let quote := quoteFor t
  let mark := String.singleton (charOf quote)
  mark ++ String.join (t.points.map (quotePoint quote)) ++ mark

end TractorRules.Text
