import TractorRules.Operation.Tricks
import TractorRules.Operation.Scores

/-!
# Dispatch

Answers a request for an operation by its name.
-/

namespace TractorRules

open Wire

def Reply.noting (op : Operation) (reply : Reply) : Reply :=
  match reply.result with
  | .error (.rules fault) => { reply with notes := reply.notes ++ [.refused op fault] }
  | _ => reply

namespace Operation

def run [RowOrder] (op : Operation) (request : Json) : Reply :=
  match op with
  | .findViablePlays => { result := Answer.viablePlays request }
  | .decomposeTrickFormat => { result := Answer.formatRows request }
  | .canPlayCards => Answer.playability request
  | .findValidBids => Answer.validBids request
  | .sortAndGroupCards => { result := Answer.suitGroups request }
  | .nextThresholdReachable => { result := Answer.thresholdReachable request }
  | .explainScoring => { result := Answer.scoreTable request }
  | .computeDeckLen => { result := Answer.deckSize request }
  | .computeScore => { result := Answer.score request }

/-- Runs an operation on a request that is checked to be an object where it has to be one, and notes
a refusal. -/
def answer [RowOrder] (op : Operation) (request : Json) : Reply :=
  match op, request with
  | .computeDeckLen, _ | _, .object _ => (op.run request).noting op
  | _, _ => { result := refuse (.notAnObject op.name request) }

end Operation

def dispatch [RowOrder] (name : Text) (request : Json) : Reply :=
  match Operation.ofName? name with
  | some op => op.answer request
  | none => { result := refuse (.unknownOperation name) }

end TractorRules
