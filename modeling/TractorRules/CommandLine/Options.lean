import TractorRules.Operation.Basic
import TractorRules.Text.Digit

/-!
# Options of the command line

The command line names one operation and may give options, which may stand anywhere before a double
hyphen, be shortened as long as they stay unique, and carry their value after an equals sign.
-/

namespace TractorRules.CommandLine

/-! ### Options -/

inductive Flag where
  | help
  | request
  | indent
  | verbose
deriving DecidableEq, Repr

namespace Flag

def names : List (String × Flag) :=
  [("-h", .help), ("--help", .help), ("--request", .request), ("--indent", .indent),
    ("--verbose", .verbose)]

def takesValue : Flag → Bool
  | .request | .indent => true
  | .help | .verbose => false

end Flag

structure Options where
  operation : Operation
  /-- The path of the request; a hyphen is the standard input. -/
  source : String
  indent : Option Int
  verbose : Bool
deriving DecidableEq, Repr

/-- Why a command line is not run: it asks for help, or it is used wrongly. -/
inductive Stop where
  | help
  | misuse
deriving DecidableEq, Repr

/-! ### Words -/

inductive Word where
  | argument (s : String)
  | flag (flag : Flag) (value : Option String)
  | unknown
  | separator
deriving DecidableEq, Repr

namespace Word

/-- A string cut at its first equals sign, if it has one. -/
def cutAtEquals (s : String) : Option (String × String) :=
  let cs := s.toList
  if cs.contains '=' then
    some (String.ofList (cs.takeWhile (· != '=')), String.ofList ((cs.dropWhile (· != '=')).drop 1))
  else none

/-- Whether a string is a hyphen and a decimal number, with no more than a line end after it. -/
def isNegativeNumber (s : String) : Bool :=
  let isDecimal := fun c : Char => (Text.digitValue? c.toNat).isSome
  let ends := fun cs : List Char => cs.isEmpty || cs == ['\n']
  match s.toList with
  | '-' :: cs =>
    match cs.dropWhile isDecimal with
    | '.' :: rest => rest.head?.any isDecimal && ends (rest.dropWhile isDecimal)
    | rest => cs.head?.any isDecimal && ends rest
  | _ => false

def completions (start : String) : List Flag :=
  (Flag.names.filter fun (name, _) => start.toList.isPrefixOf name.toList).map Prod.snd

/-- A word that begins with the short name of the help flag and goes on with other letters.  Only that
letter itself may be repeated; anything else is a value, which the flag does not take. -/
def ofShortHelp (letters : List Char) : Word :=
  .flag .help (if letters.all (· == 'h') then none else some (String.ofList letters))

def shortHelp? (s : String) : Option Word :=
  match s.toList with
  | ['-', 'h', '='] => some (.flag .help (some ""))
  | '-' :: 'h' :: '=' :: letters => some (ofShortHelp letters)
  | '-' :: 'h' :: letters => some (ofShortHelp letters)
  | _ => none

/-- What a word is that begins with a hyphen and is no flag's name. -/
def ofHyphenated (s : String) : Except Stop Word :=
  let exactWithValue := do
    let (name, value) ← cutAtEquals s
    return Word.flag (← Flag.names.lookup name) (some value)
  match (shortHelp? s).or exactWithValue with
  | some word => .ok word
  | none =>
    let (start, value) : String × Option String :=
      match cutAtEquals s with
      | some (start, value) => (start, some value)
      | none => (s, none)
    let matched := if "--".toList.isPrefixOf s.toList then completions start else []
    match matched with
    | [f] => .ok (.flag f value)
    | _ :: _ :: _ => .error .misuse
    | [] => .ok (if isNegativeNumber s || s.toList.contains ' ' then .argument s else .unknown)

def ofString (s : String) : Except Stop Word :=
  if s = "-" ∨ !"-".toList.isPrefixOf s.toList then .ok (.argument s)
  else
    match Flag.names.lookup s with
    | some f => .ok (.flag f none)
    | none => ofHyphenated s

/-- The words of a command line; after a double hyphen all are arguments. -/
def ofStrings : List String → Except Stop (List Word)
  | [] => .ok []
  | s :: rest =>
    if s = "--" then .ok (.separator :: rest.map .argument)
    else do return (← ofString s) :: (← ofStrings rest)

end Word

/-! ### Reading the options -/

structure Progress where
  operation : Option Operation := none
  source : String := "-"
  indent : Option Int := none
  verbose : Bool := false
  /-- Whether there were words with no place. -/
  surplus : Bool := false
deriving Repr

namespace Progress

def setValue (p : Progress) (f : Flag) (value : String) : Except Stop Progress :=
  match f with
  | .request => .ok { p with source := value }
  | .indent =>
    match (Text.ofString value).toInteger? with
    | some n => .ok { p with indent := some n }
    | none => .error .misuse
  | _ => .error .misuse

def setPlain (p : Progress) (f : Flag) (value : Option String) : Except Stop Progress :=
  match f, value with
  | .verbose, none => .ok { p with verbose := true }
  | .help, none => .error .help
  | _, _ => .error .misuse

/-- Takes an argument: the operation, if it is still wanted. -/
def takeArgument (p : Progress) (s : String) : Except Stop Progress :=
  match p.operation with
  | some _ => .ok { p with surplus := true }
  | none =>
    match Operation.ofName? (Text.ofString s) with
    | some op => .ok { p with operation := some op }
    | none => .error .misuse

/-- Reads words in turn.  A separator belongs to the operation, next to it or before it. -/
def read (p : Progress) : List Word → Except Stop Progress
  | [] => .ok p
  | .argument s :: .separator :: rest => do read (← p.takeArgument s) rest
  | .argument s :: rest => do read (← p.takeArgument s) rest
  | .separator :: rest => read { p with surplus := p.surplus || p.operation.isSome } rest
  | .unknown :: rest => read { p with surplus := true } rest
  | .flag f value :: rest =>
    if f.takesValue then
      match value, rest with
      | some v, rest => do read (← p.setValue f v) rest
      | none, .argument v :: rest => do read (← p.setValue f v) rest
      | none, _ => .error .misuse
    else do read (← p.setPlain f value) rest

end Progress

def Options.read (words : List String) : Except Stop Options := do
  let p ← Progress.read {} (← Word.ofStrings words)
  match p.operation, p.surplus with
  | some op, false => .ok ⟨op, p.source, p.indent, p.verbose⟩
  | _, _ => .error .misuse

end TractorRules.CommandLine
