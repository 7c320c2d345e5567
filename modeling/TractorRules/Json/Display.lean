import TractorRules.Json.Basic
import TractorRules.Text.Quoted
import TractorRules.Number.Shortest

/-!
# Values in messages

How a message shows the value it complains about, and the plain text that a value of any kind is
read as where a text is wanted.
-/

namespace TractorRules.Json

mutual

def display : Json → String
  | .null => "None"
  | .bool b => if b then "True" else "False"
  | .int n => toString n
  | .float x => x.display
  | .text t => t.quoted
  | .array items => "[" ++ ", ".intercalate (displayItems items) ++ "]"
  | .object fields => "\x7b" ++ ", ".intercalate (displayFields fields) ++ "\x7d"

def displayItems : List Json → List String
  | [] => []
  | item :: rest => item.display :: displayItems rest

def displayFields : List (Text × Json) → List String
  | [] => []
  | (key, value) :: rest => (key.quoted ++ ": " ++ value.display) :: displayFields rest

end

/-- The text that a value is read as: a text itself, any other value as a message shows it. -/
def plainText : Json → Text
  | .text t => t
  | value => Text.ofString value.display

end TractorRules.Json
