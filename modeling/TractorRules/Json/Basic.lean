import TractorRules.Text.Basic
import TractorRules.Number.Binary64

/-!
# JSON values

Requests and responses.  Objects keep the order of their fields, and integers are apart from numbers
written with a point or an exponent.
-/

namespace TractorRules

inductive Json where
  | null
  | bool (b : Bool)
  | int (n : Int)
  | float (x : Binary64)
  | text (t : Text)
  | array (items : List Json)
  | object (fields : List (Text × Json))
deriving Inhabited

namespace Json

def ofString (s : String) : Json := .text (Text.ofString s)

def ofNat (n : Nat) : Json := .int n

def record (fields : List (String × Json)) : Json :=
  .object (fields.map fun (key, value) => (Text.ofString key, value))

def lookup (key : String) (fields : List (Text × Json)) : Option Json :=
  fields.lookup (Text.ofString key)

def present (key : String) (fields : List (Text × Json)) : Option Json :=
  match lookup key fields with
  | none | some .null => none
  | some value => some value

/-- Whether a value stands for nothing: null, false, zero, or an empty text, array or object. -/
def isVoid : Json → Bool
  | .null => true
  | .bool b => !b
  | .int n => n == 0
  | .float x => x.isZero
  | .text t => t.points.isEmpty
  | .array items => items.isEmpty
  | .object fields => fields.isEmpty

def kindWord : Json → String
  | .null => "NoneType"
  | .bool _ => "bool"
  | .int _ => "int"
  | .float _ => "float"
  | .text _ => "str"
  | .array _ => "list"
  | .object _ => "dict"

/-! ### Parts -/

mutual

/-- A value and all values in it, at any depth; the keys of an object are texts in it. -/
def parts : Json → List Json
  | .array items => .array items :: itemParts items
  | .object fields => .object fields :: fieldParts fields
  | value => [value]

def itemParts : List Json → List Json
  | [] => []
  | item :: rest => item.parts ++ itemParts rest

def fieldParts : List (Text × Json) → List Json
  | [] => []
  | (key, value) :: rest => .text key :: (value.parts ++ fieldParts rest)

end

def integer? : Json → Option Int
  | .int n => some n
  | _ => none

def integers (value : Json) : List Int := value.parts.filterMap integer?

end Json

end TractorRules
