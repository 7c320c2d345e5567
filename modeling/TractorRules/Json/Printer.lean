import TractorRules.Json.Basic
import TractorRules.Text.Quoted
import TractorRules.Number.Shortest

/-!
# Writing JSON

Writes a value in characters below 128 only.  Without an indent all stands on one line; with one,
every item and field has its own line.
-/

namespace TractorRules.Json

/-! ### Texts -/

def unitEscape (n : Nat) : String := "\\u" ++ Text.hex 4 n

def escaped (c : CodePoint) : String :=
  if c = 34 then "\\\""
  else if c = 92 then "\\\\"
  else if 32 ≤ c ∧ c < 127 then String.singleton (Text.charOf c)
  else if c = 10 then "\\n"
  else if c = 13 then "\\r"
  else if c = 9 then "\\t"
  else if c = 12 then "\\f"
  else if c = 8 then "\\b"
  else if c < 65536 then unitEscape c
  else unitEscape (0xD800 + (c - 0x10000) / 1024) ++ unitEscape (0xDC00 + (c - 0x10000) % 1024)

def writeText (t : Text) : String := "\"" ++ String.join (t.points.map escaped) ++ "\""

def writeFloat : Binary64 → String
  | .nan => "NaN"
  | .infinite negative => if negative then "-Infinity" else "Infinity"
  | x => x.display

/-! ### Lines -/

/-- What breaks a line before an item at a depth: nothing without an indent. -/
def lineBreak (indent : Option Nat) (depth : Nat) : String :=
  match indent with
  | none => ""
  | some width => "\n" ++ String.ofList (List.replicate (width * depth) ' ')

def separator (indent : Option Nat) (depth : Nat) : String :=
  match indent with
  | none => ", "
  | some _ => "," ++ lineBreak indent depth

/-- Parts inside brackets, none on a line of its own if there are none. -/
def enclosed (indent : Option Nat) (depth : Nat) (left right : String) (parts : List String) :
    String :=
  if parts.isEmpty then left ++ right
  else
    left ++ lineBreak indent (depth + 1) ++ (separator indent (depth + 1)).intercalate parts
      ++ lineBreak indent depth ++ right

/-! ### Values -/

mutual

def writeAt (indent : Option Nat) (depth : Nat) : Json → String
  | .null => "null"
  | .bool b => if b then "true" else "false"
  | .int n => toString n
  | .float x => writeFloat x
  | .text t => writeText t
  | .array items => enclosed indent depth "[" "]" (writeItems indent (depth + 1) items)
  | .object fields =>
    enclosed indent depth "\x7b" "\x7d" (writeFields indent (depth + 1) fields)

def writeItems (indent : Option Nat) (depth : Nat) : List Json → List String
  | [] => []
  | item :: rest => writeAt indent depth item :: writeItems indent depth rest

def writeFields (indent : Option Nat) (depth : Nat) : List (Text × Json) → List String
  | [] => []
  | (key, value) :: rest =>
    (writeText key ++ ": " ++ writeAt indent depth value) :: writeFields indent depth rest

end

/-- A value as text; an indent below one breaks lines without indenting them. -/
def write (indent : Option Int) (value : Json) : String :=
  writeAt (indent.map Int.toNat) 0 value

end TractorRules.Json
