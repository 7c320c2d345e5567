import TractorRules.CommandLine.Run

/-!
# Main

The command line program: gives the run its input and the file that it names, and writes what the run
answers.
-/

namespace TractorRules.CommandLine

/-- How deep a request may be nested. -/
def nestingLimit : Nat := 1000

def decode (bytes : ByteArray) : Contents :=
  match String.fromUTF8? bytes with
  | some s => .text (Text.ofString s)
  | none => .undecodable

def readFile (path : String) : IO Contents := do
  try
    return decode (← IO.FS.readBinFile path)
  catch _ =>
    return .missing

def gather (words : List String) : IO (Contents × (String → Contents)) := do
  match Options.read words with
  | .error _ => return (.missing, fun _ => .missing)
  | .ok options =>
    match options.path? with
    | .ok none => return (decode (← (← IO.getStdin).readBinToEnd), fun _ => .missing)
    | .ok (some path) =>
      let contents ← readFile path
      return (.missing, fun p => if p = path then contents else .missing)
    | .error _ => return (.missing, fun _ => .missing)

def Interruption.message : Interruption → String
  | .value fault => fault.message
  | .undecodable => "The request is no text"
  | .nested => "The request is nested too deep"

end TractorRules.CommandLine

open TractorRules TractorRules.RowOrder in
def main (words : List String) : IO UInt32 := do
  let (input, file) ← CommandLine.gather words
  match CommandLine.run CommandLine.nestingLimit words input file with
  | .ok outcome =>
    (← IO.getStdout).putStr outcome.output
    (← IO.getStderr).putStr outcome.errors
    return outcome.exitCode.toUInt32
  | .error interruption =>
    (← IO.getStderr).putStrLn interruption.message
    return 1
