import TractorRules.Entries
import TractorRules.Json.Token

/-!
# Reading JSON

Reads a text as one JSON value.  A key that an object writes twice keeps its first place and takes
the last value.  What cannot be read is no JSON, or is nested too deep, or has an integer of too many
digits, whichever comes first in the text.
-/

namespace TractorRules.Json

/-- Why a text is not read. -/
inductive Unread where
  | malformed
  /-- Arrays and objects stand in each other deeper than they are followed. -/
  | nested
  | integerLength (digits : Nat)
deriving DecidableEq, Repr

mutual

/-- Reads one value from the front of the tokens, nested no deeper than `depth`; `fuel` bounds the depth
of the calls. -/
def readValue : (fuel depth : Nat) → List Token → Except Unread (Json × List Token)
  | 0, _, _ => .error .malformed
  | fuel + 1, depth, tokens =>
    match tokens, depth with
    | .atom value :: rest, _ => .ok (value, rest)
    | .quoted t :: rest, _ => .ok (.text t, rest)
    | .longInteger digits :: _, _ => .error (.integerLength digits)
    | .openArray :: _, 0 | .openObject :: _, 0 => .error .nested
    | .openArray :: .closeArray :: rest, _ + 1 => .ok (.array [], rest)
    | .openArray :: rest, depth + 1 =>
      (readItems fuel depth [] rest).map fun (items, rest) => (.array items, rest)
    | .openObject :: .closeObject :: rest, _ + 1 => .ok (.object [], rest)
    | .openObject :: rest, depth + 1 =>
      (readFields fuel depth [] rest).map fun (fields, rest) => (.object fields, rest)
    | _, _ => .error .malformed

/-- Reads the items of an array up to its end; `read` holds those so far, last first. -/
def readItems : (fuel depth : Nat) → List Json → List Token →
    Except Unread (List Json × List Token)
  | 0, _, _, _ => .error .malformed
  | fuel + 1, depth, read, tokens => do
    match ← readValue fuel depth tokens with
    | (item, .comma :: rest) => readItems fuel depth (item :: read) rest
    | (item, .closeArray :: rest) => return ((item :: read).reverse, rest)
    | _ => throw .malformed

/-- Reads the fields of an object up to its end, after those read so far. -/
def readFields : (fuel depth : Nat) → List (Text × Json) → List Token →
    Except Unread (List (Text × Json) × List Token)
  | 0, _, _, _ => .error .malformed
  | fuel + 1, depth, read, .quoted key :: .colon :: tokens => do
    match ← readValue fuel depth tokens with
    | (value, .comma :: rest) => readFields fuel depth (Entries.put key value read) rest
    | (value, .closeObject :: rest) => return (Entries.put key value read, rest)
    | _ => throw .malformed
  | _ + 1, _, _, _ => .error .malformed

end

def read (depth : Nat) (t : Text) : Except Unread Json := do
  let tokens := tokens t
  match ← readValue (tokens.length + 1) depth tokens with
  | (value, []) => return value
  | _ => throw .malformed

end TractorRules.Json
