import TractorRules.CommandLine.Options
import TractorRules.Operation.Dispatch
import TractorRules.Json.Reader
import TractorRules.Json.Printer

/-!
# Running the command line

Runs one operation on a request in a file or on the standard input.  The response goes to the
standard output; faults, and remarks if they are asked for, go to the standard error.  Some faults are
not reported so, but interrupt the run.
-/

namespace TractorRules.CommandLine

structure Outcome where
  exitCode : Nat
  output : String := ""
  errors : String := ""
deriving DecidableEq, Repr

/-- What is found where a request is read from. -/
inductive Contents where
  /-- There is nothing that can be opened. -/
  | missing
  /-- Bytes that are no text. -/
  | undecodable
  | text (t : Text)

/-- What ends a run before its outcome. -/
inductive Interruption where
  | value (fault : ValueFault)
  | undecodable
  | nested

def unreadable : String := "Cannot read request"

def textOfLines (lines : List String) : String := String.join (lines.map (· ++ "\n"))

def startLine (op : Operation) : String := "DEBUG shengji.cli: Running " ++ op.name

def noteLine : Note → String
  | .playRejected id fault =>
    "DEBUG shengji.operations: can_play_cards: player " ++ toString id ++ " rejected: "
      ++ fault.message
  | .noBids fault =>
    "DEBUG shengji.operations: find_valid_bids: no bids (" ++ fault.message ++ ")"
  | .refused op fault => "INFO shengji.operations: " ++ op.name ++ " rejected: " ++ fault.message

/-- Answers a request; the fault of a value that no field names, or a response that cannot be written,
interrupts the run. -/
def answer [RowOrder] (options : Options) (request : Json) : Except Interruption Outcome :=
  let reply := options.operation.answer request
  let remarks :=
    if options.verbose then startLine options.operation :: reply.notes.map noteLine else []
  match reply.result with
  | .ok response =>
    if response.integers.all Text.isWritable then
      .ok ⟨0, response.write options.indent ++ "\n", textOfLines remarks⟩
    else .error (.value .integerUnwritable)
  | .error (.rules fault) => .ok ⟨1, "", textOfLines (remarks ++ [fault.message])⟩
  | .error (.value fault) => .error (.value fault)

/-- The path of the file that the request is read from, unless it is the standard input. -/
def Options.path? (options : Options) : Except ValueFault (Option String) :=
  if options.source = "-" then .ok none
  else if options.source.toList.contains '\x00' then .error .nullInPath
  else .ok (some options.source)

/-- Answers the request in what was found.  What is missing or is no JSON is reported. -/
def answerContents [RowOrder] (depth : Nat) (options : Options) (contents : Contents) :
    Except Interruption Outcome :=
  match contents with
  | .missing => .ok ⟨1, "", unreadable⟩
  | .undecodable => .error .undecodable
  | .text t =>
    match Json.read depth t with
    | .ok request => answer options request
    | .error .malformed => .ok ⟨1, "", unreadable⟩
    | .error .nested => .error .nested
    | .error (.integerLength digits) => .error (.value (.integerLength digits))

/-- Runs a command line, given the standard input, the files, and how deep a request may be nested. -/
def run [RowOrder] (depth : Nat) (words : List String) (input : Contents)
    (file : String → Contents) : Except Interruption Outcome :=
  match Options.read words with
  | .error .help => .ok ⟨0, "", ""⟩
  | .error .misuse => .ok ⟨2, "", ""⟩
  | .ok options =>
    match options.path? with
    | .ok none => answerContents depth options input
    | .ok (some path) => answerContents depth options (file path)
    | .error fault => .error (.value fault)

end TractorRules.CommandLine
